import LaManchaland.Api.Model
import LaManchaland.Llmserver.Owner
import LaManchaland.Startup

/-!
# The last model request

Requests are answered one after the other, but the goroutine of a load runs whenever it likes: its `Start` can launch
after a later unload has stopped the manager, and it can set the flag `modelLoaded` after a later unload has cleared
it (`unload_overtaken`). `InOrder` says that neither happens at a step, and that no launch orphans a child.
`lastRequest_wins`: along every run whose steps are in order, once everything is finished after a last unload or
DELETE, nothing runs, nothing is shown as loaded and no child is live.
-/

namespace LaManchaland.Api

open Runs Sections
open Llmserver (Setting Machine Owned NoneLive CanLaunch)
open Startup (Scan ControllerConfig startup)

/-- Unload and DELETE. -/
def ModelRequest.stops : ModelRequest → Bool
  | .post none => false
  | .post (some req) => req.isUnload
  | .delete => true

/-! ## One request after the other -/

/-- Every request so far has been answered. -/
def Answered (s : Sys) : Prop := ∀ th ∈ s.pool.threads, th.tag.background = false → th.rest = []

instance (s : Sys) : Decidable (Answered s) :=
  inferInstanceAs (Decidable (∀ th ∈ s.pool.threads, th.tag.background = false → th.rest = []))

/-- The steps of a client that waits for every answer. -/
def sequential (s : Sys) : Label → Option Sys
  | .arrive r => if Answered s then step s (.arrive r) else none
  | l => step s l

theorem step_of_sequential {s t : Sys} {l : Label} (h : sequential s l = some t) : step s l = some t := by
  cases l with
  | arrive r =>
    simp only [sequential] at h
    split at h
    · exact h
    · cases h
  | _ => exact h

/-! ## The property and the condition -/

/-- When all is finished and the last request was an unload or a DELETE, nothing runs and nothing is loaded. -/
def Settled (s : Sys) : Prop :=
  s.pool.Finished → ∀ r, s.requests.getLast? = some r → r.stops = true →
    s.pool.state.llm.srv.isRunning = false ∧ s.pool.state.api.modelLoaded = false ∧ NoneLive s.pool.state.llm

/-- The last request so far has run one of the sections. -/
def LastRan (s : Sys) (as : List Section) : Prop :=
  ∃ e ∈ s.pool.log, e.tag.id + 1 = s.requests.length ∧ e.sect ∈ as

/-- The sections that clear `modelLoaded`. -/
def clearing : List Section := [.clearLoaded, .clearModel]

/-- No `Start` launches after the last request has stopped the manager, nor while the flag is clear and a child is
live; and `modelLoaded` is not set after the last request has cleared it. -/
def InOrder (s : Sys) : Label → Prop
  | .advance o i => ∀ th ∈ s.pool.threads[i]?,
    (th.rest.head? = some .start → CanLaunch o.env s.pool.state.llm →
      ¬LastRan s [.stop] ∧ (s.pool.state.llm.srv.isRunning = true ∨ NoneLive s.pool.state.llm)) ∧
    (th.rest.head? = some .setLoaded → ¬LastRan s clearing)
  | _ => True

instance (s : Sys) (as : List Section) : Decidable (LastRan s as) :=
  inferInstanceAs (Decidable (∃ e ∈ s.pool.log, e.tag.id + 1 = s.requests.length ∧ e.sect ∈ as))

instance (m : Machine) : Decidable (NoneLive m) := inferInstanceAs (Decidable (∀ c ∈ m.children, c.live = false))

instance (s : Sys) : ∀ l, Decidable (InOrder s l)
  | .advance o i => inferInstanceAs (Decidable (∀ th ∈ s.pool.threads[i]?,
    (th.rest.head? = some .start → CanLaunch o.env s.pool.state.llm →
      ¬LastRan s [.stop] ∧ (s.pool.state.llm.srv.isRunning = true ∨ NoneLive s.pool.state.llm)) ∧
    (th.rest.head? = some .setLoaded → ¬LastRan s clearing)))
  | .arrive _ => isTrue trivial
  | .exit _ => isTrue trivial
  | .update _ => isTrue trivial

/-! ## The invariant -/

/-- What the last request has stopped and cleared stays so. -/
structure Calm (s : Sys) : Prop where
  traced : WellTraced s
  owned : Owned s.pool.state.llm
  stopped : LastRan s [.stop] → s.pool.state.llm.srv.isRunning = false ∧ NoneLive s.pool.state.llm
  cleared : LastRan s clearing → s.pool.state.api.modelLoaded = false

section Sections

variable {o : Outside} {a : Section} {c : Controller} {m m' : Machine}

/-- The manager keeps its children, its cancel function and its flag. -/
structure SameProcess (m m' : Machine) : Prop where
  children : m'.children = m.children
  cancel : m'.srv.cancel = m.srv.cancel
  isRunning : m'.srv.isRunning = m.srv.isRunning

theorem SameProcess.noneLive (h : SameProcess m m') : NoneLive m' ↔ NoneLive m := by
  rw [NoneLive, NoneLive, h.children]

theorem SameProcess.owned (h : SameProcess m m') (ho : Owned m) : Owned m' := by
  intro i hi
  rw [h.cancel]
  refine ho i ?_
  rwa [Llmserver.LiveAt, h.children] at hi

/-- Only `Start` and `Stop` touch the process. -/
theorem run_process (h₁ : a ≠ .start) (h₂ : a ≠ .stop) : SameProcess c.llm (a.run o c).1.llm := by
  cases a with
  | start => exact absurd rfl h₁
  | stop => exact absurd rfl h₂
  | set f => cases f <;> exact ⟨rfl, rfl, rfl⟩
  | _ => exact ⟨rfl, rfl, rfl⟩

/-- Only three sections touch `modelLoaded`. -/
theorem run_modelLoaded (h₁ : a ≠ .setLoaded) (h₂ : a ∉ clearing) :
    (a.run o c).1.api.modelLoaded = c.api.modelLoaded := by
  cases a with
  | setLoaded => exact absurd rfl h₁
  | clearLoaded => exact absurd (by simp [clearing]) h₂
  | clearModel => exact absurd (by simp [clearing]) h₂
  | _ => rfl

theorem run_clearing (h : a ∈ clearing) : (a.run o c).1.api.modelLoaded = false := by
  simp only [clearing, List.mem_cons, List.not_mem_nil, or_false] at h
  rcases h with rfl | rfl <;> rfl

end Sections

section Steps

variable {s t : Sys}

/-- What the last request has run after a section of a thread. -/
theorem lastRan_advance {as : List Section} {i : Nat} {tag : Tag} {a : Section}
    (hlog : t.pool.log = ⟨i, tag, a⟩ :: s.pool.log) (hreq : t.requests = s.requests) (h : LastRan t as) :
    a ∈ as ∨ LastRan s as := by
  obtain ⟨e, he, hid, hsect⟩ := h
  rw [hlog] at he
  rw [hreq] at hid
  rcases List.mem_cons.mp he with rfl | he
  · exact .inl hsect
  · exact .inr ⟨e, he, hid, hsect⟩

/-- A request that has just arrived has run nothing. -/
theorem not_lastRan_arrive (h : WellTraced s) (r : ModelRequest) (as : List Section) :
    ¬LastRan ⟨Sections.arrive program ⟨s.requests.length, r, false⟩ s.pool, s.requests ++ [r]⟩ as := by
  rintro ⟨e, he, hid, _⟩
  obtain ⟨th, hth, ht⟩ := h.traced.logged e he
  have hr := h.request th (List.mem_of_getElem? hth)
  have hlt := (List.getElem?_eq_some_iff.mp hr).1
  rw [ht] at hlt
  simp only [List.length_append, List.length_singleton] at hid
  omega

/-- The manager after a section, when the section is in order. -/
theorem calm_process (h : Calm s) {o : Outside} {a : Section}
    (hstart : a = .start → CanLaunch o.env s.pool.state.llm →
      ¬LastRan s [.stop] ∧ (s.pool.state.llm.srv.isRunning = true ∨ NoneLive s.pool.state.llm)) :
    Owned (a.run o s.pool.state).1.llm ∧ (a = .stop ∨ LastRan s [.stop] →
      (a.run o s.pool.state).1.llm.srv.isRunning = false ∧ NoneLive (a.run o s.pool.state).1.llm) := by
  by_cases hstop : a = .stop
  · subst hstop
    have hnone := Llmserver.noneLive_stopLocked h.owned
    exact ⟨.of_noneLive hnone, fun _ => ⟨rfl, hnone⟩⟩
  by_cases hs : a = .start
  · subst hs
    refine ⟨(Llmserver.owned_start h.owned).mpr fun hl => (hstart rfl hl).2, fun hlast => ?_⟩
    have hlast : LastRan s [.stop] := hlast.resolve_left hstop
    obtain ⟨hrun, hnone⟩ := h.stopped hlast
    have hready : Llmserver.ready s.pool.state.llm = s.pool.state.llm := by simp [Llmserver.ready, hrun]
    -- after the stop `Start` may only fail, and there is nothing to stop
    have hsame : (Llmserver.start o.env s.pool.state.llm).1 = s.pool.state.llm := by
      rcases Llmserver.start_cases o.env s.pool.state.llm with ⟨_, he⟩ | ⟨_, _, he⟩ | ⟨hl, _⟩
      · rw [he]
      · rw [he, hready]
      · exact absurd hlast (hstart rfl hl).1
    show (Llmserver.start o.env s.pool.state.llm).1.srv.isRunning = false ∧
      NoneLive (Llmserver.start o.env s.pool.state.llm).1
    rw [hsame]
    exact ⟨hrun, hnone⟩
  · have hsame := run_process (o := o) (c := s.pool.state) hs hstop
    refine ⟨hsame.owned h.owned, fun hlast => ?_⟩
    obtain ⟨hrun, hnone⟩ := h.stopped (hlast.resolve_left hstop)
    exact ⟨hsame.isRunning.trans hrun, hsame.noneLive.mpr hnone⟩

/-- The flag after a section, when the section is in order. -/
theorem calm_flag (h : Calm s) {o : Outside} {a : Section} (hset : a = .setLoaded → ¬LastRan s clearing)
    (hlast : a ∈ clearing ∨ LastRan s clearing) : (a.run o s.pool.state).1.api.modelLoaded = false := by
  by_cases hc : a ∈ clearing
  · exact run_clearing hc
  · have hlast : LastRan s clearing := hlast.resolve_left hc
    have hne : a ≠ .setLoaded := fun ha => hset ha hlast
    rw [run_modelLoaded hne hc]
    exact h.cleared hlast

/-- A step in order keeps the calm. -/
theorem calm_step {l : Label} (h : Calm s) (hin : InOrder s l) (hs : step s l = some t) : Calm t := by
  have htraced := wellTraced_step h.traced hs
  rcases step_cases hs with ⟨r, _, rfl⟩ | ⟨o, i, rfl, hp, hreq⟩ | ⟨i, m, hm, rfl⟩
  · refine ⟨htraced, h.owned, fun hl => ?_, fun hl => ?_⟩
    · exact absurd hl (not_lastRan_arrive h.traced r _)
    · exact absurd hl (not_lastRan_arrive h.traced r _)
  · obtain ⟨tag, a, rest, hi, hstate, _, hlog⟩ := advance_some hp
    obtain ⟨hstart, hset⟩ := hin ⟨tag, a :: rest⟩ hi
    simp only [List.head?_cons, Option.some.injEq] at hstart hset
    obtain ⟨howned, hstopped⟩ := calm_process h hstart
    refine ⟨htraced, by rw [hstate]; exact howned, fun hl => ?_, fun hl => ?_⟩
    · rw [hstate]
      exact hstopped ((lastRan_advance hlog hreq hl).imp_left List.mem_singleton.mp)
    · rw [hstate]
      exact calm_flag h hset (lastRan_advance hlog hreq hl)
  · have hmachine : Owned m ∧ (s.pool.state.llm.srv.isRunning = false → m.srv.isRunning = false) ∧
        (NoneLive s.pool.state.llm → NoneLive m) := by
      rcases hm with ⟨_, hm⟩ | ⟨_, hm⟩
      · refine ⟨Llmserver.owned_exit h.owned hm, fun hr => ?_, Llmserver.noneLive_exit hm⟩
        rw [Llmserver.exit_srv hm]
        exact hr
      · refine ⟨Llmserver.owned_update h.owned hm, fun _ => ?_, Llmserver.noneLive_update hm⟩
        rw [Llmserver.update_srv hm]
    obtain ⟨howned, hrun, hnone⟩ := hmachine
    refine ⟨htraced, howned, fun hl => ?_, h.cleared⟩
    obtain ⟨hr, hn⟩ := h.stopped hl
    exact ⟨hrun hr, hnone hn⟩

/-- A request that stops runs its `Stop` and a clearing section. -/
theorem stops_sections {r : ModelRequest} (h : r.stops = true) : .stop ∈ r.handler ∧ ∃ a ∈ clearing, a ∈ r.handler := by
  cases r with
  | delete =>
    exact ⟨by simp [ModelRequest.handler, handleModelDelete], .clearModel, by simp [clearing],
      by simp [ModelRequest.handler, handleModelDelete]⟩
  | post body =>
    cases body with
    | none => cases h
    | some req =>
      have h : req.isUnload = true := h
      exact ⟨by simp [ModelRequest.handler, handleModelPost, h], .clearLoaded, by simp [clearing],
        by simp [ModelRequest.handler, handleModelPost, h]⟩

/-- When all is finished, the last request has run its whole handler. -/
theorem lastRan_of_finished (h : WellTraced s) (hf : s.pool.Finished) {r : ModelRequest}
    (hr : s.requests.getLast? = some r) {a : Section} {as : List Section} (ha : a ∈ r.handler) (has : a ∈ as) :
    LastRan s as := by
  rw [List.getLast?_eq_getElem?] at hr
  have hlt := (List.getElem?_eq_some_iff.mp hr).1
  obtain ⟨th, hth, ht⟩ := h.handler _ r hr
  obtain ⟨i, hi⟩ := List.mem_iff_getElem?.mp hth
  have hdone := h.traced.done_of_finished hf hi (by rw [ht])
  rw [ht] at hdone
  have hmem : a ∈ done i s.pool.log := by
    rw [hdone]
    exact ha
  obtain ⟨e, he, hei, rfl⟩ := mem_done.mp hmem
  obtain ⟨th', hth', ht'⟩ := h.traced.logged e he
  rw [hei, hi] at hth'
  cases hth'
  refine ⟨e, he, ?_, has⟩
  rw [← ht', ht]
  show s.requests.length - 1 + 1 = s.requests.length
  omega

/-- A calm state is settled. -/
theorem Calm.settled (h : Calm s) : Settled s := by
  intro hf r hr hstops
  obtain ⟨hstop, a, ha, hclear⟩ := stops_sections hstops
  obtain ⟨hrun, hnone⟩ := h.stopped (lastRan_of_finished h.traced hf hr hstop (List.mem_singleton.mpr rfl))
  exact ⟨hrun, h.cleared (lastRan_of_finished h.traced hf hr hclear ha), hnone⟩

end Steps

/-! ## Runs from the startup -/

section Runs

variable (scan : Scan) (now : Nat) (cfg : ControllerConfig)

theorem calm_startup : Calm (Sys.init (startup scan now cfg)) := by
  refine ⟨wellTraced_init _, .of_noneLive ?_, ?_, ?_⟩
  · intro c hc
    have hc : c ∈ (startup scan now cfg).llm.children := hc
    rw [Startup.startup_children] at hc
    cases hc
  · rintro ⟨e, he, _⟩
    cases he
  · rintro ⟨e, he, _⟩
    cases he

/-- **The last model request wins** along every run whose steps are in order. -/
theorem lastRequest_wins {ls : List Label} (h : Meets sequential InOrder (Sys.init (startup scan now cfg)) ls) :
    Always sequential Settled (Sys.init (startup scan now cfg)) ls :=
  (Always.of_meets (P := Calm) (fun _ _ _ hc hin hs => calm_step hc hin (step_of_sequential hs))
    (calm_startup scan now cfg) h).mono fun _ => Calm.settled

end Runs

/-! ## A load that is overtaken -/

/-- A POST with a path and an action. -/
def actionRequest (action : String) : ModelRequest := .post (some ⟨"/m.gguf", "", action, 0, 0, 0, 0⟩)

/-- A load is handled. -/
def loadHandled : List Label := .arrive (actionRequest "load") :: List.replicate 4 (.advance outsideUp 0)

/-- An unload is handled, by thread 2. -/
def unloadHandled : List Label := .arrive (actionRequest "unload") :: List.replicate 6 (.advance outsideUp 2)

/-- The goroutine of the load runs. -/
def loadRuns : List Label := List.replicate 4 (.advance outsideUp 1)

/-- A load that runs before the unload arrives. -/
theorem lastRequest_wins_unloaded :
    Always sequential Settled (Sys.init (startup (fun _ _ _ => none) 0 Startup.oneWorker))
      (loadHandled ++ loadRuns ++ unloadHandled) :=
  lastRequest_wins (fun _ _ _ => none) 0 Startup.oneWorker (by decide)

/-- The goroutine of a load runs after the unload has been answered. -/
theorem unload_overtaken : ¬∀ (scan : Scan) (now : Nat) (cfg : ControllerConfig) (ls : List Label),
    Always sequential Settled (Sys.init (startup scan now cfg)) ls := by
  intro h
  have hlast := (h (fun _ _ _ => none) 0 Startup.oneWorker (loadHandled ++ unloadHandled ++ loadRuns)).last rfl
  have hrun : true = false := (hlast (by decide) (actionRequest "unload") rfl rfl).1
  cases hrun

end LaManchaland.Api
