import LaManchaland.Lib.Locks

/-!
# What threads hold at their work

For one lock `k` of a pool, a `Hold` is what a thread has of it, `holdOf` in a state and `Hold.after` along a program;
`step_hold` says that a step changes the hold of its own thread as the program says, and no other one.

* `Guarded`: at each work the thread holds what the work needs.
* `reaches`: the program may get to a marked work, or start a thread that may. A thread that has the lock locked is
  stuck when it takes it again, so nothing behind that counts.
* `Single`: a program that starts a thread which reaches a mark does not reach one itself.

`kept_exec`: in a pool of guarded and single programs of which at most one reaches a mark, each work has what it needs,
a locked lock is not read, and at most one thread is at a mark.
-/

namespace Locks

open Runs

variable {K O W : Type*} [DecidableEq K]

/-- What a thread has of a lock: how often it reads it, and whether it has it locked. -/
structure Hold where
  reads : Nat
  writes : Bool
  deriving DecidableEq

/-- Nothing. -/
def Hold.none : Hold := ⟨0, false⟩

/-- What a thread has of the lock after an action. -/
def Hold.after (k : K) (h : Hold) : Act K O W → Hold
  | .lock k' => if k' = k then { h with writes := true } else h
  | .unlock k' => if k' = k then { h with writes := false } else h
  | .rlock k' => if k' = k then { h with reads := h.reads + 1 } else h
  | .runlock k' => if k' = k then { h with reads := h.reads - 1 } else h
  | .go _ | .work _ => h

/-- A thread that has the lock locked cannot take it. -/
def Hold.blocks (k : K) (h : Hold) : Act K O W → Bool
  | .lock k' | .rlock k' => h.writes && k' = k
  | _ => false

/-- What thread `i` has of the lock. -/
def holdOf (s : Pool K O W) (k : K) (i : Nat) : Hold := ⟨(s.readers k).count i, s.writer k = .holding i⟩

section Programs

variable (k : K) (need : Hold → W → Prop) (mark : W → Bool) (may : O → Bool)

/-- Every work of the program has what it needs. -/
def Guarded : Hold → List (Act K O W) → Prop
  | _, [] => True
  | h, .work w :: p => need h w ∧ Guarded h p
  | h, a :: p => Guarded (h.after k a) p

/-- The action is a marked work, or starts a thread that may get to one. -/
def leads : Act K O W → Bool
  | .work w => mark w
  | .go o => may o
  | _ => false

/-- The program may get to a marked work, or start a thread that may. -/
def reaches : Hold → List (Act K O W) → Bool
  | _, [] => false
  | h, a :: p => leads mark may a || !h.blocks k a && reaches (h.after k a) p

/-- What comes after a start of a thread that may get to a mark does not. -/
def Single : Hold → List (Act K O W) → Prop
  | _, [] => True
  | h, .go o :: p => (may o = true → reaches k mark may h p = false) ∧ Single h p
  | h, a :: p => Single (h.after k a) p

end Programs

section Parts

variable {k : K} {need : Hold → W → Prop} {mark : W → Bool} {may : O → Bool}

/-- A program of parts that leave the lock free. -/
theorem Guarded.flatMap {α : Type*} {l : List α} {f : α → List (Act K O W)}
    (h : ∀ a ∈ l, ∀ p, Guarded k need .none p → Guarded k need .none (f a ++ p)) :
    Guarded k need .none (l.flatMap f) := by
  induction l with
  | nil => trivial
  | cons a l ih =>
    rw [List.flatMap_cons]
    exact h a List.mem_cons_self _ (ih fun b hb => h b (List.mem_cons_of_mem _ hb))

/-- A program that reaches a mark has an action that leads there. -/
theorem exists_leads {h : Hold} {p : List (Act K O W)} (hr : reaches k mark may h p = true) :
    ∃ a ∈ p, leads mark may a = true := by
  induction p generalizing h with
  | nil => cases hr
  | cons a p ih =>
    simp only [reaches, Bool.or_eq_true, Bool.and_eq_true] at hr
    rcases hr with ha | ⟨_, hp⟩
    · exact ⟨a, List.mem_cons_self, ha⟩
    · obtain ⟨b, hb, hl⟩ := ih hp
      exact ⟨b, List.mem_cons_of_mem _ hb, hl⟩

/-- Before the last part, the program starts no thread that reaches a mark. -/
theorem Single.append {b p : List (Act K O W)} (hb : ∀ o, .go o ∈ b → may o = false)
    (hp : ∀ h, Single k mark may h p) (h : Hold) : Single k mark may h (b ++ p) := by
  induction b generalizing h with
  | nil => exact hp h
  | cons a b ih =>
    have htail : ∀ h, Single k mark may h (b ++ p) := ih fun o ho => hb o (List.mem_cons_of_mem _ ho)
    cases a with
    | go o =>
      refine ⟨fun ho => ?_, htail h⟩
      rw [hb o List.mem_cons_self] at ho
      cases ho
    | _ => exact htail _

/-- A program that starts no thread which reaches a mark. -/
theorem Single.of_not_may {p : List (Act K O W)} (hp : ∀ o, .go o ∈ p → may o = false) (h : Hold) :
    Single k mark may h p := by
  have hnil : ∀ h, Single k mark may h ([] : List (Act K O W)) := fun _ => trivial
  rw [← List.append_nil p]
  exact Single.append hp hnil h

end Parts

/-! ## What a step does to the holds -/

section Step

variable {prog : O → List (Act K O W)} {s t : Pool K O W} {i : Nat} {k : K}

/-- Thread `i` goes past its action `a`. -/
structure Moves (prog : O → List (Act K O W)) (k : K) (s t : Pool K O W) (i : Nat) (a : Act K O W)
    (rest : List (Act K O W)) (new : List (List (Act K O W))) : Prop where
  here : s.threads[i]? = some (a :: rest)
  threads : t.threads = s.threads.set i rest ++ new
  own : holdOf t k i = (holdOf s k i).after k a
  others : ∀ j, j ≠ i → holdOf t k j = holdOf s k j
  free : (holdOf s k i).blocks k a = false
  spawned : new = [] ∨ ∃ o, a = .go o ∧ new = [prog o]

theorem holdOf_writer (s : Pool K O W) (ts : List (List (Act K O W))) (k k' : K) (w : Writer) (j : Nat) :
    holdOf { s with threads := ts, writer := Function.update s.writer k w } k' j =
      if k' = k then ⟨(s.readers k).count j, w = .holding j⟩ else holdOf s k' j := by
  unfold holdOf
  by_cases hk : k' = k
  · subst hk; simp
  · simp [hk]

theorem holdOf_readers (s : Pool K O W) (ts : List (List (Act K O W))) (k k' : K) (rs : List Nat) (j : Nat) :
    holdOf { s with threads := ts, readers := Function.update s.readers k rs } k' j =
      if k' = k then ⟨rs.count j, s.writer k = .holding j⟩ else holdOf s k' j := by
  unfold holdOf
  by_cases hk : k' = k
  · subst hk; simp
  · simp [hk]

/-- Thread `i` changes the writer side of a lock, and no other thread has it locked. -/
theorem Moves.of_writer {k' : K} {w : Writer} {a : Act K O W} {rest : List (Act K O W)}
    (hi : s.threads[i]? = some (a :: rest)) (hother : ∀ j, j ≠ i → s.writer k' ≠ .holding j ∧ w ≠ .holding j)
    (hown : (if k = k' then ⟨(s.readers k').count i, w = .holding i⟩ else holdOf s k i) = (holdOf s k i).after k a)
    (hfree : (holdOf s k i).blocks k a = false) : Moves prog k s
      { s with threads := s.threads.set i rest, writer := Function.update s.writer k' w } i a rest [] := by
  refine ⟨hi, by simp, (holdOf_writer _ _ _ _ _ _).trans hown, fun j hj => ?_, hfree, .inl rfl⟩
  obtain ⟨hs, hw⟩ := hother j hj
  rw [holdOf_writer]
  split
  · rename_i hk
    subst hk
    simp [holdOf, hs, hw]
  · rfl

/-- Thread `i` changes how often it reads a lock. -/
theorem Moves.of_readers {k' : K} {rs : List Nat} {a : Act K O W} {rest : List (Act K O W)}
    (hi : s.threads[i]? = some (a :: rest)) (hother : ∀ j, j ≠ i → rs.count j = (s.readers k').count j)
    (hown : (if k = k' then ⟨rs.count i, s.writer k' = .holding i⟩ else holdOf s k i) = (holdOf s k i).after k a)
    (hfree : (holdOf s k i).blocks k a = false) : Moves prog k s
      { s with threads := s.threads.set i rest, readers := Function.update s.readers k' rs } i a rest [] := by
  refine ⟨hi, by simp, (holdOf_readers _ _ _ _ _ _).trans hown, fun j hj => ?_, hfree, .inl rfl⟩
  rw [holdOf_readers]
  split
  · rename_i hk
    subst hk
    simp [holdOf, hother j hj]
  · rfl

/-- **What a step does to the holds of a lock**: nothing, when a writer announces itself, or the thread moves. -/
theorem step_hold (k : K) (h : step prog s i = some t) :
    (t.threads = s.threads ∧ ∀ j, holdOf t k j = holdOf s k j) ∨ ∃ a rest new, Moves prog k s t i a rest new := by
  cases step_spec h with
  | @announce k' rest hi hw =>
    refine .inl ⟨rfl, fun j => ?_⟩
    rw [holdOf_writer s s.threads]
    split
    · rename_i hk
      subst hk
      simp [holdOf, hw]
    · rfl
  | @lock k' rest hi hw hr =>
    refine .inr ⟨_, rest, [], Moves.of_writer hi (fun j hj => by simp [hw, Ne.symm hj]) ?_ ?_⟩
    · by_cases hk : k = k'
      · subst hk; simp [holdOf, Hold.after]
      · simp [hk, Ne.symm hk, Hold.after]
    · by_cases hk : k' = k
      · subst hk; simp [holdOf, Hold.blocks, hw]
      · simp [hk, Hold.blocks]
  | @unlock k' rest hi hw =>
    refine .inr ⟨_, rest, [], Moves.of_writer hi (fun j hj => by simp [hw, Ne.symm hj]) ?_ rfl⟩
    by_cases hk : k = k'
    · subst hk; simp [holdOf, Hold.after]
    · simp [hk, Ne.symm hk, Hold.after]
  | @rlock k' rest hi hw =>
    refine .inr ⟨_, rest, [], Moves.of_readers hi (fun j hj => List.count_cons_of_ne (Ne.symm hj)) ?_ ?_⟩
    · by_cases hk : k = k'
      · subst hk; simp [holdOf, Hold.after]
      · simp [hk, Ne.symm hk, Hold.after]
    · by_cases hk : k' = k
      · subst hk; simp [holdOf, Hold.blocks, hw]
      · simp [hk, Hold.blocks]
  | @runlock k' rest hi hr =>
    refine .inr ⟨_, rest, [], Moves.of_readers hi (fun j hj => List.count_erase_of_ne hj) ?_ rfl⟩
    by_cases hk : k = k'
    · subst hk; simp [holdOf, Hold.after, List.count_erase_self]
    · simp [hk, Ne.symm hk, Hold.after]
  | @go o rest hi => exact .inr ⟨_, rest, [prog o], hi, rfl, rfl, fun _ _ => rfl, rfl, .inr ⟨o, rfl, rfl⟩⟩
  | @work w rest hi => exact .inr ⟨_, rest, [], hi, by simp, rfl, fun _ _ => rfl, rfl, .inl rfl⟩

/-- **What holds of every thread** after a move: what its program takes along, and what holds of a new program. -/
theorem Moves.forall_threads {T : Hold → List (Act K O W) → Prop} {a : Act K O W} {rest : List (Act K O W)}
    {new : List (List (Act K O W))} (m : Moves prog k s t i a rest new)
    (htail : ∀ h a p, T h (a :: p) → T (h.after k a) p) (hprog : ∀ o, T .none (prog o))
    (hbound : ∀ j, s.threads.length ≤ j → holdOf s k j = .none)
    (hs : ∀ j p, s.threads[j]? = some p → T (holdOf s k j) p) :
    ∀ j p, t.threads[j]? = some p → T (holdOf t k j) p := by
  intro j p hj
  have hi := (List.getElem?_eq_some_iff.mp m.here).1
  rw [m.threads] at hj
  rcases Threads.getElem?_move hj with ⟨rfl, rfl⟩ | ⟨hji, hj⟩ | ⟨hle, hp⟩
  · rw [m.own]
    exact htail _ _ _ (hs j _ m.here)
  · rw [m.others j hji]
    exact hs j p hj
  · -- a new thread holds nothing
    rw [m.others j (by omega), hbound j hle]
    rcases m.spawned with rfl | ⟨o, _, rfl⟩
    · cases hp
    · rw [List.mem_singleton.mp hp]
      exact hprog o

/-- What holds of all programs, whatever the threads hold: what a program takes along, and what its starts bring. -/
theorem Moves.forall_programs {T : List (Act K O W) → Prop} {a : Act K O W} {rest : List (Act K O W)}
    {new : List (List (Act K O W))} (m : Moves prog k s t i a rest new) (htail : ∀ a p, T (a :: p) → T p)
    (hprog : ∀ o p, T (.go o :: p) → T (prog o)) (hs : ∀ p ∈ s.threads, T p) : ∀ p ∈ t.threads, T p := by
  intro p hp
  have hhere : T (a :: rest) := hs _ (List.mem_of_getElem? m.here)
  rw [m.threads, List.mem_append] at hp
  rcases hp with hp | hp
  · rcases List.mem_or_eq_of_mem_set hp with hp | rfl
    · exact hs p hp
    · exact htail a _ hhere
  · rcases m.spawned with rfl | ⟨o, rfl, rfl⟩
    · cases hp
    · rw [List.mem_singleton.mp hp]
      exact hprog o rest hhere

/-- A lock that is locked is not read. -/
def Exclusive (s : Pool K O W) (k : K) : Prop := ∀ i, s.writer k = .holding i → s.readers k = []

theorem Exclusive.of_writer (hs : Exclusive s k) (ts : List (List (Act K O W))) {k' : K} {w : Writer}
    (hw : ∀ i, w = .holding i → s.readers k' = []) :
    Exclusive { s with threads := ts, writer := Function.update s.writer k' w } k := by
  intro j hj
  by_cases hk : k = k'
  · subst hk
    exact hw j (by simpa using hj)
  · simp only [Function.update_of_ne hk] at hj
    exact hs j hj

theorem Exclusive.of_readers (hs : Exclusive s k) (ts : List (List (Act K O W))) {k' : K} {rs : List Nat}
    (hr : ∀ i, s.writer k' = .holding i → s.readers k' = [] → rs = []) :
    Exclusive { s with threads := ts, readers := Function.update s.readers k' rs } k := by
  intro j hj
  by_cases hk : k = k'
  · subst hk
    simpa using hr j hj (hs j hj)
  · simp only [Function.update_of_ne hk]
    exact hs j hj

theorem exclusive_step (hs : Exclusive s k) (h : step prog s i = some t) : Exclusive t k := by
  cases step_spec h with
  | announce hi hw => exact hs.of_writer s.threads (by simp)
  | lock hi hw hr => exact hs.of_writer _ fun _ _ => hr
  | unlock hi hw => exact hs.of_writer _ (by simp)
  | rlock hi hw => exact hs.of_readers _ (by simp [hw])
  | runlock hi hr => exact hs.of_readers _ fun _ _ hnil => by rw [hnil]; rfl
  | go hi => exact hs
  | work hi => exact hs

end Step

/-! ## The invariant -/

section Kept

variable {k : K} {need : Hold → W → Prop} {mark : W → Bool} {may : O → Bool}

theorem Guarded.tail {h : Hold} {a : Act K O W} {p : List (Act K O W)} (hg : Guarded k need h (a :: p)) :
    Guarded k need (h.after k a) p := by
  cases a with
  | work w => exact hg.2
  | _ => exact hg

theorem Single.tail {h : Hold} {a : Act K O W} {p : List (Act K O W)} (hs : Single k mark may h (a :: p)) :
    Single k mark may (h.after k a) p := by
  cases a with
  | go o => exact hs.2
  | _ => exact hs

theorem reaches_of_leads {h : Hold} {a : Act K O W} {p : List (Act K O W)} (ha : leads mark may a = true) :
    reaches k mark may h (a :: p) = true := by
  simp [reaches, ha]

theorem reaches_of_tail {h : Hold} {a : Act K O W} {p : List (Act K O W)} (hb : h.blocks k a = false)
    (hp : reaches k mark may (h.after k a) p = true) : reaches k mark may h (a :: p) = true := by
  simp [reaches, hb, hp]

/-- A program that a thread may start with. -/
structure Fits (k : K) (need : Hold → W → Prop) (mark : W → Bool) (may : O → Bool) (p : List (Act K O W)) : Prop where
  guarded : Guarded k need .none p
  single : Single k mark may .none p

/-- What holds of the threads in every reachable state. -/
structure Kept (k : K) (need : Hold → W → Prop) (mark : W → Bool) (may : O → Bool) (s : Pool K O W) : Prop where
  guarded : ∀ i p, s.threads[i]? = some p → Guarded k need (holdOf s k i) p
  single : ∀ i p, s.threads[i]? = some p → Single k mark may (holdOf s k i) p
  /-- At most one thread reaches a mark. -/
  alone : ∀ i j p q, s.threads[i]? = some p → s.threads[j]? = some q →
    reaches k mark may (holdOf s k i) p = true → reaches k mark may (holdOf s k j) q = true → i = j
  exclusive : Exclusive s k
  /-- Only threads of the pool hold the lock. -/
  bound : ∀ i, s.threads.length ≤ i → holdOf s k i = .none

variable {prog : O → List (Act K O W)} {s t : Pool K O W} {i : Nat}

/-- A thread that reaches a mark after a step did so before, or is one that this step has started. -/
theorem Kept.origin (hs : Kept k need mark may s) (hmay : ∀ o, reaches k mark may .none (prog o) = true → may o = true)
    {a : Act K O W} {rest : List (Act K O W)} {new : List (List (Act K O W))} (m : Moves prog k s t i a rest new)
    {j : Nat} {q : List (Act K O W)} (hj : t.threads[j]? = some q)
    (hr : reaches k mark may (holdOf t k j) q = true) :
    (∃ p, s.threads[j]? = some p ∧ reaches k mark may (holdOf s k j) p = true) ∨
      (j = s.threads.length ∧ ∃ o, a = .go o ∧ may o = true) := by
  have hlt := (List.getElem?_eq_some_iff.mp hj).1
  have hi := (List.getElem?_eq_some_iff.mp m.here).1
  rw [m.threads] at hj
  rcases Threads.getElem?_move hj with ⟨rfl, rfl⟩ | ⟨hji, hj⟩ | ⟨hle, hq⟩
  · rw [m.own] at hr
    exact .inl ⟨_, m.here, reaches_of_tail m.free hr⟩
  · rw [m.others j hji] at hr
    exact .inl ⟨q, hj, hr⟩
  · rcases m.spawned with rfl | ⟨o, ha, rfl⟩
    · cases hq
    · rw [List.mem_singleton] at hq
      subst hq
      rw [m.others j (by omega), hs.bound j hle] at hr
      refine .inr ⟨?_, o, ha, hmay o hr⟩
      rw [m.threads, List.length_append, List.length_set, List.length_singleton] at hlt
      omega

/-- A thread that starts one which reaches a mark does not reach one any more. -/
theorem Kept.not_both (hs : Kept k need mark may s) {o : O} {rest : List (Act K O W)}
    {new : List (List (Act K O W))} (m : Moves prog k s t i (.go o) rest new) (ho : may o = true) {j : Nat}
    {p q : List (Act K O W)} (hp : s.threads[j]? = some p) (hrp : reaches k mark may (holdOf s k j) p = true)
    (hq : t.threads[j]? = some q) : reaches k mark may (holdOf t k j) q = false := by
  have hji : j = i := hs.alone j i _ _ hp m.here hrp (reaches_of_leads ho)
  subst hji
  rw [m.threads, Threads.getElem?_move_self m.here] at hq
  cases hq
  rw [m.own]
  exact (hs.single j _ m.here).1 ho

theorem Kept.move (hs : Kept k need mark may s) (hfits : ∀ o, Fits k need mark may (prog o))
    (hmay : ∀ o, reaches k mark may .none (prog o) = true → may o = true) {a : Act K O W}
    {rest : List (Act K O W)} {new : List (List (Act K O W))} (m : Moves prog k s t i a rest new)
    (hexcl : Exclusive t k) : Kept k need mark may t := by
  have hi := (List.getElem?_eq_some_iff.mp m.here).1
  have hlen : s.threads.length ≤ t.threads.length := by rw [m.threads]; simp
  refine ⟨m.forall_threads (fun _ _ _ => Guarded.tail) (fun o => (hfits o).guarded) hs.bound hs.guarded,
    m.forall_threads (fun _ _ _ => Single.tail) (fun o => (hfits o).single) hs.bound hs.single,
    fun j j' q q' hj hj' hr hr' => ?_, hexcl, fun j hj => ?_⟩
  · rcases hs.origin hmay m hj hr with ⟨p, hp, hrp⟩ | ⟨hjl, o, rfl, ho⟩
    · rcases hs.origin hmay m hj' hr' with ⟨p', hp', hrp'⟩ | ⟨_, o, rfl, ho⟩
      · exact hs.alone j j' p p' hp hp' hrp hrp'
      · rw [hs.not_both m ho hp hrp hj] at hr
        cases hr
    · rcases hs.origin hmay m hj' hr' with ⟨p', hp', hrp'⟩ | ⟨hjl', _⟩
      · rw [hs.not_both m ho hp' hrp' hj'] at hr'
        cases hr'
      · rw [hjl, hjl']
  · rw [m.others j (by omega)]
    exact hs.bound j (by omega)

theorem kept_step (hfits : ∀ o, Fits k need mark may (prog o))
    (hmay : ∀ o, reaches k mark may .none (prog o) = true → may o = true) (hs : Kept k need mark may s)
    (h : step prog s i = some t) : Kept k need mark may t := by
  have hexcl := exclusive_step hs.exclusive h
  rcases step_hold k h with ⟨hts, hsame⟩ | ⟨a, rest, new, m⟩
  · refine ⟨fun j q hj => ?_, fun j q hj => ?_, fun j j' q q' hj hj' hr hr' => ?_, hexcl, fun j hj => ?_⟩
    · rw [hts] at hj; rw [hsame]; exact hs.guarded j q hj
    · rw [hts] at hj; rw [hsame]; exact hs.single j q hj
    · rw [hts] at hj hj'
      rw [hsame] at hr hr'
      exact hs.alone j j' q q' hj hj' hr hr'
    · rw [hts] at hj; rw [hsame]; exact hs.bound j hj
  · exact hs.move hfits hmay m hexcl

theorem kept_init {ts : List (List (Act K O W))} (hfits : ∀ p ∈ ts, Fits k need mark may p)
    (halone : ∀ (i j : Nat) (p q : List (Act K O W)), ts[i]? = some p → ts[j]? = some q →
      reaches k mark may .none p = true → reaches k mark may .none q = true → i = j) :
    Kept k need mark may (Pool.init ts) := by
  have hnone : ∀ i, holdOf (Pool.init ts : Pool K O W) k i = .none := fun i => by
    simp [holdOf, Pool.init, Hold.none]
  refine ⟨fun i p hp => ?_, fun i p hp => ?_, fun i j p q hp hq hr hr' => ?_, fun i hi => ?_, fun i _ => hnone i⟩
  · rw [hnone]; exact (hfits p (List.mem_of_getElem? hp)).guarded
  · rw [hnone]; exact (hfits p (List.mem_of_getElem? hp)).single
  · rw [hnone] at hr hr'
    exact halone i j p q hp hq hr hr'
  · cases hi

/-- **Every reachable state** of a pool of programs that fit, of which at most one reaches a mark, is kept. -/
theorem kept_exec (hfits : ∀ o, Fits k need mark may (prog o))
    (hmay : ∀ o, reaches k mark may .none (prog o) = true → may o = true) (hs : Kept k need mark may s)
    {ls : List Nat} (h : exec (step prog) s ls = some t) : Kept k need mark may t :=
  exec_invariant (fun _ _ _ hs h => kept_step hfits hmay hs h) hs h

/-- The work that a thread is at has what it needs. -/
theorem Kept.needed {w : W} {rest : List (Act K O W)} (hs : Kept k need mark may s)
    (hi : s.threads[i]? = some (.work w :: rest)) : need (holdOf s k i) w :=
  (hs.guarded i _ hi).1

/-- At most one thread is at a marked work. -/
theorem Kept.mark_unique {j : Nat} {w w' : W} {rest rest' : List (Act K O W)} (hs : Kept k need mark may s)
    (hi : s.threads[i]? = some (.work w :: rest)) (hj : s.threads[j]? = some (.work w' :: rest'))
    (hw : mark w = true) (hw' : mark w' = true) : i = j :=
  hs.alone i j _ _ hi hj (reaches_of_leads hw) (reaches_of_leads hw')

/-- A thread that has the lock locked excludes those that read it. -/
theorem Kept.writes_reads {j : Nat} (hs : Kept k need mark may s) (hi : (holdOf s k i).writes = true) :
    (holdOf s k j).reads = 0 := by
  have hw : s.writer k = .holding i := by simpa [holdOf] using hi
  simp [holdOf, hs.exclusive i hw]

end Kept

end Locks
