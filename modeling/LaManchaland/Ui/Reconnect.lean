import LaManchaland.Lib.Runs

/-!
# The reconnecting page

The page opens a WebSocket, and `connectWebSocket` schedules a reconnect when the constructor throws, when the socket
fires an error, and when it closes. `Page` counts the sockets and the timers of one page; `step` lets timers fire, and
sockets open, fail and close.

A socket that fails fires an error and then closes, so two timers are scheduled for it. `one_iff`: a run keeps one
socket or timer exactly when no such pair of events finds two attempts left. The budget of attempts holds in every run
(`scheduled_le`).
-/

namespace LaManchaland.Ui

open Runs

/-- The sockets and timers of the page, its `reconnectAttempts`, and the timers scheduled since the last opening. -/
structure Page where
  connecting : Nat
  opened : Nat
  timers : Nat
  reconnectAttempts : Nat
  scheduled : Nat
  deriving DecidableEq

/-- The sockets and timers together. -/
def Page.total (p : Page) : Nat := p.connecting + p.opened + p.timers

def maxReconnectAttempts : Nat := 10

def scheduleReconnect (p : Page) : Page :=
  if p.reconnectAttempts < maxReconnectAttempts then
    { p with
      reconnectAttempts := p.reconnectAttempts + 1
      timers := p.timers + 1
      scheduled := p.scheduled + 1 }
  else p

/-- `connectWebSocket`; the constructor may throw. -/
def connectWebSocket (throws : Bool) (p : Page) : Page :=
  if throws then scheduleReconnect p else { p with connecting := p.connecting + 1 }

/-- The page after the call of `init`. -/
def Page.init (throws : Bool) : Page := connectWebSocket throws ⟨0, 0, 0, 0, 0⟩

inductive Label where
  | fire (throws : Bool)
  | opens
  | fails
  | closes (error : Bool)
  deriving DecidableEq

/-- The handlers `onerror`, when there is an error, and `onclose`. -/
def closed (error : Bool) (p : Page) : Page :=
  scheduleReconnect (if error then scheduleReconnect p else p)

def step (p : Page) : Label → Option Page
  | .fire throws => if 0 < p.timers then some (connectWebSocket throws { p with timers := p.timers - 1 }) else none
  | .opens =>
    if 0 < p.connecting then
      some { p with connecting := p.connecting - 1, opened := p.opened + 1, reconnectAttempts := 0, scheduled := 0 }
    else none
  | .fails => if 0 < p.connecting then some (closed true { p with connecting := p.connecting - 1 }) else none
  | .closes error => if 0 < p.opened then some (closed error { p with opened := p.opened - 1 }) else none

/-! ## The property and the condition -/

/-- One socket or timer, and at most `maxReconnectAttempts` timers scheduled since the last opening. -/
structure One (p : Page) : Prop where
  single : p.total ≤ 1
  budget : p.scheduled ≤ maxReconnectAttempts

/-- An error event finds at most one attempt left. -/
def Spent (p : Page) : Label → Prop
  | .fails => maxReconnectAttempts ≤ p.reconnectAttempts + 1
  | .closes true => maxReconnectAttempts ≤ p.reconnectAttempts + 1
  | _ => True

instance (p : Page) : ∀ l, Decidable (Spent p l)
  | .fire _ => isTrue trivial
  | .opens => isTrue trivial
  | .fails => inferInstanceAs (Decidable (_ ≤ _))
  | .closes true => inferInstanceAs (Decidable (_ ≤ _))
  | .closes false => isTrue trivial

/-! ## The steps -/

/-- Every timer scheduled since the last opening has used one attempt. -/
def Counted (p : Page) : Prop := p.scheduled = p.reconnectAttempts ∧ p.reconnectAttempts ≤ maxReconnectAttempts

section Steps

variable {p q : Page} {l : Label}

/-- A reconnect is scheduled while an attempt is left. -/
theorem scheduleReconnect_total (p : Page) :
    (scheduleReconnect p).total = p.total + min 1 (maxReconnectAttempts - p.reconnectAttempts) := by
  unfold scheduleReconnect
  split
  · simp only [Page.total]
    omega
  · omega

theorem scheduleReconnect_attempts (p : Page) : (scheduleReconnect p).reconnectAttempts =
    p.reconnectAttempts + min 1 (maxReconnectAttempts - p.reconnectAttempts) := by
  unfold scheduleReconnect
  split
  · simp only
    omega
  · omega

theorem counted_scheduleReconnect (h : Counted p) : Counted (scheduleReconnect p) := by
  obtain ⟨hs, hm⟩ := h
  unfold scheduleReconnect Counted
  split
  · simp only
    omega
  · exact ⟨hs, hm⟩

/-- A close schedules one reconnect, and one more after an error, as far as attempts are left. -/
theorem closed_total (error : Bool) (p : Page) : (closed error p).total =
    p.total + min (if error then 2 else 1) (maxReconnectAttempts - p.reconnectAttempts) := by
  cases error with
  | true =>
    simp only [closed, if_true, scheduleReconnect_total, scheduleReconnect_attempts]
    omega
  | false => exact scheduleReconnect_total p

theorem counted_closed (error : Bool) (h : Counted p) : Counted (closed error p) := by
  cases error with
  | true => exact counted_scheduleReconnect (counted_scheduleReconnect h)
  | false => exact counted_scheduleReconnect h

/-- **What a step can do.** -/
theorem step_cases (h : step p l = some q) :
    (∃ throws, l = .fire throws ∧ 0 < p.timers ∧ q = connectWebSocket throws { p with timers := p.timers - 1 }) ∨
    (l = .opens ∧ 0 < p.connecting ∧ q =
      { p with connecting := p.connecting - 1, opened := p.opened + 1, reconnectAttempts := 0, scheduled := 0 }) ∨
    (l = .fails ∧ 0 < p.connecting ∧ q = closed true { p with connecting := p.connecting - 1 }) ∨
    ∃ error, l = .closes error ∧ 0 < p.opened ∧ q = closed error { p with opened := p.opened - 1 } := by
  cases l with
  | fire throws =>
    simp only [step, Option.ite_none_right_eq_some, Option.some.injEq] at h
    exact .inl ⟨throws, rfl, h.1, h.2.symm⟩
  | opens =>
    simp only [step, Option.ite_none_right_eq_some, Option.some.injEq] at h
    exact .inr (.inl ⟨rfl, h.1, h.2.symm⟩)
  | fails =>
    simp only [step, Option.ite_none_right_eq_some, Option.some.injEq] at h
    exact .inr (.inr (.inl ⟨rfl, h.1, h.2.symm⟩))
  | closes error =>
    simp only [step, Option.ite_none_right_eq_some, Option.some.injEq] at h
    exact .inr (.inr (.inr ⟨error, rfl, h.1, h.2.symm⟩))

theorem counted_connectWebSocket (throws : Bool) (h : Counted p) : Counted (connectWebSocket throws p) := by
  cases throws with
  | true => exact counted_scheduleReconnect h
  | false => exact h

/-- Every step keeps count of the attempts. -/
theorem counted_step (h : Counted p) (hs : step p l = some q) : Counted q := by
  rcases step_cases hs with ⟨throws, _, _, rfl⟩ | ⟨_, _, rfl⟩ | ⟨_, _, rfl⟩ | ⟨error, _, _, rfl⟩
  · exact counted_connectWebSocket throws h
  · exact ⟨rfl, Nat.zero_le _⟩
  · exact counted_closed true h
  · exact counted_closed error h

/-- The budget is kept by the count. -/
theorem one_iff_total (h : Counted p) : One p ↔ p.total ≤ 1 := by
  refine ⟨fun ho => ho.single, fun ht => ⟨ht, ?_⟩⟩
  rw [h.1]
  exact h.2

/-- A timer turns into a socket, or into another timer. -/
theorem connectWebSocket_total (throws : Bool) (p : Page) : (connectWebSocket throws p).total ≤ p.total + 1 := by
  cases throws with
  | true =>
    show (scheduleReconnect p).total ≤ p.total + 1
    rw [scheduleReconnect_total]
    omega
  | false =>
    simp only [connectWebSocket, Page.total, Bool.false_eq_true, if_false]
    omega

/-- A step keeps one socket or timer exactly when no error finds two attempts left. -/
theorem one_step (h : Counted p) (ho : One p) (hs : step p l = some q) : One q ↔ Spent p l := by
  rw [one_iff_total (counted_step h hs)]
  have htotal : p.connecting + p.opened + p.timers ≤ 1 := ho.single
  rcases step_cases hs with ⟨throws, rfl, ht, rfl⟩ | ⟨rfl, hc, rfl⟩ | ⟨rfl, hc, rfl⟩ | ⟨error, rfl, hopen, rfl⟩
  · refine iff_of_true ?_ trivial
    have := connectWebSocket_total throws { p with timers := p.timers - 1 }
    simp only [Page.total] at this ⊢
    omega
  · refine iff_of_true ?_ trivial
    simp only [Page.total]
    omega
  · rw [closed_total]
    simp only [Page.total, Spent, if_true]
    omega
  · rw [closed_total]
    cases error with
    | true =>
      simp only [Page.total, Spent, if_true]
      omega
    | false =>
      simp only [Page.total, Spent, Bool.false_eq_true, if_false, iff_true]
      omega

end Steps

/-! ## Runs -/

theorem counted_init (throws : Bool) : Counted (Page.init throws) :=
  counted_connectWebSocket throws ⟨rfl, Nat.zero_le _⟩

theorem one_init (throws : Bool) : One (Page.init throws) := by
  rw [one_iff_total (counted_init throws)]
  exact connectWebSocket_total throws ⟨0, 0, 0, 0, 0⟩

/-- The budget between two openings holds in every run. -/
theorem scheduled_le {throws : Bool} {ls : List Label} {p : Page} (h : exec step (Page.init throws) ls = some p) :
    p.scheduled ≤ maxReconnectAttempts := by
  obtain ⟨hs, hm⟩ := exec_invariant (fun _ _ _ => counted_step) (counted_init throws) h
  rw [hs]
  exact hm

/-- **The exact condition for one connection per page**, along every run from the call of `init`. -/
theorem one_iff (throws : Bool) (ls : List Label) :
    Always step One (Page.init throws) ls ↔ Meets step Spent (Page.init throws) ls :=
  always_iff_meets (fun _ _ _ => counted_step) (fun _ _ _ => one_step) (counted_init throws) (one_init throws) ls

/-- The first connection fails: two timers are pending, and then two sockets are open. -/
theorem two_connections : ¬∀ (throws : Bool) (ls : List Label), Always step One (Page.init throws) ls := by
  intro h
  have hlast := (h false [.fails, .fire false, .fire false, .opens, .opens]).last rfl
  exact absurd hlast.single (by decide)

end LaManchaland.Ui
