import LaManchaland.Lib.Runs

/-!
# Critical sections are atomic

Threads share a state `σ` under one reader-writer lock, and each has a state `ρ` of its own. A `Section` is a list of
statements that runs under the lock; one that takes the lock to read leaves the shared state alone. `step` lets a thread
enter a section when the lock lets it, run one statement, or leave; `atomicStep` runs a whole section at once.

`Stands s x`: the state `x` of the atomic system is `s` with every section under way run to its end. A step of the
threads is an atomic step when it enters a section and none otherwise (`step_stands`). So every interleaving is a run of
whole sections, in the order in which they are entered (`exec_stands`), and between sections the two systems are in the
same state (`Stands.quiet`).
-/

namespace Critical

open Runs

variable {σ ρ O : Type*}

/-- The statements between a lock and its unlock, on the shared state and the one of the thread. -/
structure Section (σ ρ : Type*) where
  writes : Bool
  body : List (σ × ρ → σ × ρ)
  reads : writes = false → ∀ f ∈ body, ∀ x, (f x).1 = x.1

/-- The section without its first statement. -/
def Section.tail (a : Section σ ρ) : Section σ ρ :=
  ⟨a.writes, a.body.tail, fun h f hf => a.reads h f (List.mem_of_mem_tail hf)⟩

/-- Statements one after the other. -/
def runAll : List (σ × ρ → σ × ρ) → σ × ρ → σ × ρ
  | [], x => x
  | f :: fs, x => runAll fs (f x)

/-- A thread, with what is left of the section that it is in. -/
structure Thread (σ ρ : Type*) where
  own : ρ
  inside : Option (Section σ ρ)

def Thread.writing (th : Thread σ ρ) : Bool := th.inside.any Section.writes

def Thread.rest (th : Thread σ ρ) : List (σ × ρ → σ × ρ) := (th.inside.map Section.body).getD []

/-- What the thread leaves when it runs its section to the end. -/
def Thread.finish (th : Thread σ ρ) (shared : σ) : σ × ρ := runAll th.rest (shared, th.own)

/-- Whether the thread keeps another one from taking the lock. -/
def Thread.blocks (writes : Bool) (th : Thread σ ρ) : Bool := th.inside.any fun a => writes || a.writes

structure State (σ ρ : Type*) where
  shared : σ
  threads : List (Thread σ ρ)

inductive Label (O : Type*) where
  | enter (i : Nat) (o : O)
  | statement (i : Nat)
  | leave (i : Nat)

/-- A step of a thread; `code` is the section of an operation, which may depend on the state at its entry. -/
def step (code : O → σ → Section σ ρ) (s : State σ ρ) : Label O → Option (State σ ρ)
  | .enter i o =>
    match s.threads[i]? with
    | some ⟨own, none⟩ =>
      if s.threads.any (Thread.blocks (code o s.shared).writes) then none
      else some { s with threads := s.threads.set i ⟨own, some (code o s.shared)⟩ }
    | _ => none
  | .statement i =>
    match s.threads[i]? with
    | some ⟨own, some a⟩ =>
      match a.body with
      | [] => none
      | f :: _ => some ⟨(f (s.shared, own)).1, s.threads.set i ⟨(f (s.shared, own)).2, some a.tail⟩⟩
    | _ => none
  | .leave i =>
    match s.threads[i]? with
    | some ⟨own, some a⟩ => if a.body = [] then some { s with threads := s.threads.set i ⟨own, none⟩ } else none
    | _ => none

/-- A thread runs a whole section. -/
def atomicStep (code : O → σ → Section σ ρ) (x : σ × List ρ) : Nat × O → Option (σ × List ρ)
  | (i, o) => x.2[i]?.map fun own =>
    ((runAll (code o x.1).body (x.1, own)).1, x.2.set i (runAll (code o x.1).body (x.1, own)).2)

/-- The section that a step enters. -/
def Label.entry : Label O → Option (Nat × O)
  | .enter i o => some (i, o)
  | _ => none

/-- The sections that a run enters, in order. -/
def entries (ls : List (Label O)) : List (Nat × O) := ls.filterMap Label.entry

/-- No thread is in a section. -/
def Quiet (s : State σ ρ) : Prop := ∀ th ∈ s.threads, th.inside = none

/-- The threads before their first sections. -/
def start (shared : σ) (owns : List ρ) : State σ ρ := ⟨shared, owns.map fun own => ⟨own, none⟩⟩

/-! ## The relation -/

/-- `x` is `s` with every section under way run to its end; a section that writes is the only one. -/
structure Stands (s : State σ ρ) (x : σ × List ρ) : Prop where
  alone : ∀ (i : Nat) (th : Thread σ ρ), s.threads[i]? = some th → th.writing = true →
    ∀ (j : Nat) (th' : Thread σ ρ), s.threads[j]? = some th' → j ≠ i → th'.inside = none
  owns : x.2 = s.threads.map fun th => (th.finish s.shared).2
  written : ∀ th ∈ s.threads, th.writing = true → x.1 = (th.finish s.shared).1
  unwritten : (∀ th ∈ s.threads, th.writing = false) → x.1 = s.shared

section Finish

variable {th : Thread σ ρ} {shared : σ}

theorem finish_outside (h : th.inside = none) : th.finish shared = (shared, th.own) := by
  rw [Thread.finish, Thread.rest, h]
  rfl

theorem writing_outside (h : th.inside = none) : th.writing = false := by
  rw [Thread.writing, h]
  rfl

/-- Statements that read leave the shared state. -/
theorem runAll_reads : ∀ {body : List (σ × ρ → σ × ρ)}, (∀ f ∈ body, ∀ x, (f x).1 = x.1) → ∀ x : σ × ρ,
    (runAll body x).1 = x.1
  | [], _, _ => rfl
  | f :: _, h, x =>
    (runAll_reads (fun g hg => h g (List.mem_cons_of_mem _ hg)) (f x)).trans (h f List.mem_cons_self x)

/-- A list after a change at one position, under a map that does not see the change. -/
theorem map_set_of_forall {α β : Type*} {g g' : α → β} {ts : List α} {i : Nat} {a b : α} (hi : ts[i]? = some a)
    (hself : g' b = g a) (hother : ∀ j c, ts[j]? = some c → j ≠ i → g' c = g c) : (ts.set i b).map g' = ts.map g := by
  refine List.ext_getElem? fun j => ?_
  rw [List.getElem?_map, List.getElem?_map, List.getElem?_set]
  split
  · rename_i hij
    subst hij
    rw [if_pos (List.getElem?_eq_some_iff.mp hi).1, hi]
    exact congrArg some hself
  · rename_i hij
    cases hj : ts[j]? with
    | none => rfl
    | some c => exact congrArg some (hother j c hj (Ne.symm hij))

end Finish

/-- Before the first sections. -/
theorem stands_start (shared : σ) (owns : List ρ) : Stands (start shared owns) (shared, owns) := by
  have houtside : ∀ th ∈ (start shared owns).threads, th.inside = none := by
    intro th hth
    obtain ⟨own, _, rfl⟩ := List.mem_map.mp hth
    rfl
  refine ⟨fun i th hi hw => ?_, ?_, fun th hth hw => ?_, fun _ => rfl⟩
  · rw [writing_outside (houtside th (List.mem_of_getElem? hi))] at hw
    cases hw
  · show owns = (owns.map fun own => (⟨own, none⟩ : Thread σ ρ)).map _
    rw [List.map_map]
    exact (List.map_id' owns).symm
  · rw [writing_outside (houtside th hth)] at hw
    cases hw

/-- **Between sections** the atomic system is in the same state. -/
theorem Stands.quiet {s : State σ ρ} {x : σ × List ρ} (h : Stands s x) (hq : Quiet s) :
    x = (s.shared, s.threads.map Thread.own) := by
  refine Prod.ext (h.unwritten fun th hth => writing_outside (hq th hth)) (h.owns.trans ?_)
  exact List.map_congr_left fun th hth => by rw [finish_outside (hq th hth)]

/-- A thread outside its sections has what it has in the atomic system. -/
theorem Stands.own {s : State σ ρ} {x : σ × List ρ} (h : Stands s x) {i : Nat} {own : ρ}
    (hi : s.threads[i]? = some ⟨own, none⟩) : x.2[i]? = some own := by
  rw [h.owns, List.getElem?_map, hi]
  exact congrArg some (congrArg Prod.snd (finish_outside rfl))

/-! ## Steps -/

section Step

variable {code : O → σ → Section σ ρ} {s t : State σ ρ} {x : σ × List ρ} {i : Nat} {own : ρ}

/-- A thread is in the list after a change when it is the new one or another one. -/
theorem mem_set_cases {α : Type*} {ts : List α} {i : Nat} {a b : α} (h : a ∈ ts.set i b) :
    a = b ∨ ∃ j : Nat, j ≠ i ∧ ts[j]? = some a := by
  obtain ⟨j, hj⟩ := List.mem_iff_getElem?.mp h
  rw [List.getElem?_set] at hj
  split at hj
  · split at hj
    · exact .inl (Option.some.inj hj).symm
    · cases hj
  · rename_i hij
    exact .inr ⟨j, Ne.symm hij, hj⟩

/-- What a step that enters a section says: no section that writes is under way, and none at all under one that is to
write. -/
theorem enter_cases {o : O} (hs : step code s (.enter i o) = some t) : ∃ own,
    s.threads[i]? = some ⟨own, none⟩ ∧ t = { s with threads := s.threads.set i ⟨own, some (code o s.shared)⟩ } ∧
    (∀ th ∈ s.threads, th.writing = false) ∧
    ((code o s.shared).writes = true → ∀ th ∈ s.threads, th.inside = none) := by
  simp only [step] at hs
  split at hs
  · rename_i own hi
    split at hs
    · cases hs
    · rename_i hfree
      cases hs
      have hblocks : ∀ th ∈ s.threads, th.blocks (code o s.shared).writes = false := by simpa using hfree
      refine ⟨own, hi, rfl, fun th hth => ?_, fun hw th hth => ?_⟩
      · have hb := hblocks th hth
        cases hin : th.inside with
        | none => exact writing_outside hin
        | some a =>
          rw [Thread.blocks, hin, Option.any_some, Bool.or_eq_false_iff] at hb
          rw [Thread.writing, hin, Option.any_some, hb.2]
      · have hb := hblocks th hth
        cases hin : th.inside with
        | none => rfl
        | some a =>
          rw [Thread.blocks, hin, Option.any_some, hw, Bool.true_or] at hb
          cases hb
  · cases hs

/-- A thread that enters a section runs it to its end in the atomic system. -/
theorem stands_enter (h : Stands s x) {o : O} (hs : step code s (.enter i o) = some t) :
    ∃ y, atomicStep code x (i, o) = some y ∧ Stands t y := by
  obtain ⟨own, hi, rfl, hwriting, houtside⟩ := enter_cases hs
  have hshared : x.1 = s.shared := h.unwritten hwriting
  have hown : x.2[i]? = some own := h.own hi
  refine ⟨_, by rw [atomicStep, hown, Option.map_some, hshared], ?_, ?_, ?_, ?_⟩
  · intro j th hj hw k th' hk hkj
    rw [List.getElem?_set] at hj hk
    split at hj
    · rename_i hij
      subst hij
      rw [if_neg (Ne.symm hkj)] at hk
      split at hj
      · cases hj
        exact houtside hw th' (List.mem_of_getElem? hk)
      · cases hj
    · rw [hwriting th (List.mem_of_getElem? hj)] at hw
      cases hw
  · rw [List.map_set, h.owns]
    rfl
  · intro th hth hw
    rcases mem_set_cases hth with rfl | ⟨j, _, hj⟩
    · rfl
    · rw [hwriting th (List.mem_of_getElem? hj)] at hw
      cases hw
  · intro hall
    have hlt := (List.getElem?_eq_some_iff.mp hi).1
    have hreads : (code o s.shared).writes = false := hall ⟨own, some (code o s.shared)⟩ (List.mem_set hlt _)
    exact runAll_reads ((code o s.shared).reads hreads) _

/-- A statement changes nothing in the atomic system. -/
theorem stands_statement (h : Stands s x) {a : Section σ ρ} {f : σ × ρ → σ × ρ} {fs : List (σ × ρ → σ × ρ)}
    (hi : s.threads[i]? = some ⟨own, some a⟩) (hbody : a.body = f :: fs) :
    Stands ⟨(f (s.shared, own)).1, s.threads.set i ⟨(f (s.shared, own)).2, some a.tail⟩⟩ x := by
  have hlt := (List.getElem?_eq_some_iff.mp hi).1
  have hself : (⟨(f (s.shared, own)).2, some a.tail⟩ : Thread σ ρ).finish (f (s.shared, own)).1 =
      (⟨own, some a⟩ : Thread σ ρ).finish s.shared := by
    simp only [Thread.finish, Thread.rest, Section.tail, Option.map_some, Option.getD_some, hbody, List.tail_cons]
    rfl
  -- The others are outside when the section writes, and the shared state stays when it reads.
  have hother : ∀ (j : Nat) (th : Thread σ ρ), s.threads[j]? = some th → j ≠ i →
      (th.finish (f (s.shared, own)).1).2 = (th.finish s.shared).2 := by
    intro j th hj hji
    cases hw : a.writes with
    | true =>
      have hout := h.alone i _ hi hw j th hj hji
      rw [finish_outside hout, finish_outside hout]
    | false =>
      have hmem : f ∈ a.body := by rw [hbody]; exact List.mem_cons_self
      rw [a.reads hw f hmem]
  refine ⟨?_, ?_, ?_, ?_⟩
  · intro j th hj hw k th' hk hkj
    rw [List.getElem?_set] at hj hk
    split at hj
    · rename_i hij
      subst hij
      rw [if_neg (Ne.symm hkj)] at hk
      cases hj
      exact h.alone i _ hi hw k th' hk hkj
    · rename_i hij
      have hout := h.alone j th hj hw i _ hi hij
      cases hout
  · rw [h.owns]
    exact (map_set_of_forall hi (congrArg Prod.snd hself) hother).symm
  · intro th hth hw
    rcases mem_set_cases hth with rfl | ⟨j, hji, hj⟩
    · rw [hself]
      exact h.written _ (List.mem_of_getElem? hi) hw
    · have hout := h.alone j th hj hw i _ hi (Ne.symm hji)
      cases hout
  · intro hall
    have hreads : a.writes = false := hall _ (List.mem_set hlt _)
    have hmem : f ∈ a.body := by rw [hbody]; exact List.mem_cons_self
    show x.1 = (f (s.shared, own)).1
    rw [a.reads hreads f hmem]
    refine h.unwritten fun th hth => ?_
    obtain ⟨j, hj⟩ := List.mem_iff_getElem?.mp hth
    by_cases hji : j = i
    · subst hji
      rw [hi] at hj
      cases hj
      exact hreads
    · exact hall th (List.mem_of_getElem? (i := j) (by rw [List.getElem?_set_ne (Ne.symm hji), hj]))

/-- Leaving a section changes nothing in the atomic system. -/
theorem stands_leave (h : Stands s x) {a : Section σ ρ} (hi : s.threads[i]? = some ⟨own, some a⟩)
    (hbody : a.body = []) : Stands { s with threads := s.threads.set i ⟨own, none⟩ } x := by
  have hlt := (List.getElem?_eq_some_iff.mp hi).1
  have hself : (⟨own, none⟩ : Thread σ ρ).finish s.shared = (⟨own, some a⟩ : Thread σ ρ).finish s.shared := by
    simp only [Thread.finish, Thread.rest, Option.map_some, Option.getD_some, hbody]
    rfl
  refine ⟨?_, ?_, ?_, ?_⟩
  · intro j th hj hw k th' hk hkj
    rw [List.getElem?_set] at hj hk
    split at hj
    · cases hj
      cases hw
    · rename_i hij
      have hout := h.alone j th hj hw i _ hi hij
      cases hout
  · rw [h.owns]
    exact (map_set_of_forall hi (congrArg Prod.snd hself) fun _ _ _ _ => rfl).symm
  · intro th hth hw
    rcases mem_set_cases hth with rfl | ⟨j, _, hj⟩
    · cases hw
    · exact h.written th (List.mem_of_getElem? hj) hw
  · intro hall
    by_cases hw : a.writes = true
    · rw [h.written _ (List.mem_of_getElem? hi) hw, ← hself]
      rfl
    · refine h.unwritten fun th hth => ?_
      obtain ⟨j, hj⟩ := List.mem_iff_getElem?.mp hth
      by_cases hji : j = i
      · subst hji
        rw [hi] at hj
        cases hj
        exact Bool.not_eq_true _ ▸ hw
      · exact hall th (List.mem_of_getElem? (i := j) (by rw [List.getElem?_set_ne (Ne.symm hji), hj]))

/-- **A step of the threads** is an atomic step when it enters a section, and none otherwise. -/
theorem step_stands {l : Label O} (h : Stands s x) (hs : step code s l = some t) :
    ∃ y, exec (atomicStep code) x (entries [l]) = some y ∧ Stands t y := by
  cases l with
  | enter i o =>
    obtain ⟨y, hy, hstands⟩ := stands_enter h hs
    exact ⟨y, by simpa [entries, Label.entry] using hy, hstands⟩
  | statement i =>
    simp only [step] at hs
    split at hs
    · rename_i own a hi
      split at hs
      · cases hs
      · rename_i f fs hbody
        cases hs
        exact ⟨x, rfl, stands_statement h hi hbody⟩
    · cases hs
  | leave i =>
    simp only [step] at hs
    split at hs
    · rename_i own a hi
      split at hs
      · rename_i hbody
        cases hs
        exact ⟨x, rfl, stands_leave h hi hbody⟩
      · cases hs
    · cases hs

/-- **Every interleaving is a run of whole sections**, in the order of their entries. -/
theorem exec_stands {ls : List (Label O)} (h : Stands s x) (hs : exec (step code) s ls = some t) :
    ∃ y, exec (atomicStep code) x (entries ls) = some y ∧ Stands t y := by
  induction ls generalizing s x with
  | nil =>
    cases hs
    exact ⟨x, rfl, h⟩
  | cons l ls ih =>
    obtain ⟨u, hu, hs⟩ := exec_cons_some hs
    obtain ⟨y, hy, hstands⟩ := step_stands h hu
    obtain ⟨z, hz, hend⟩ := ih hstands hs
    have hsplit : entries (l :: ls) = entries [l] ++ entries ls := List.filterMap_append (l := [l])
    exact ⟨z, hsplit ▸ exec_trans hy hz, hend⟩

/-- A thread that enters a section finds the shared state of the atomic system. -/
theorem Stands.shared_of_enter (h : Stands s x) {o : O} (hs : step code s (.enter i o) = some t) : x.1 = s.shared := by
  obtain ⟨_, _, _, hwriting, _⟩ := enter_cases hs
  exact h.unwritten hwriting

end Step

/-! ## What every statement does -/

section Related

variable {code : O → σ → Section σ ρ} {R : σ → σ → Prop}

/-- Every statement of the section takes the shared state to a related one. -/
def Relates (R : σ → σ → Prop) (body : List (σ × ρ → σ × ρ)) : Prop := ∀ f ∈ body, ∀ x, R x.1 (f x).1

/-- A step whose statements relate states leads to a related state, with threads whose statements do. -/
theorem step_related (hrefl : ∀ m, R m m) {s t : State σ ρ} {l : Label O}
    (hin : ∀ th ∈ s.threads, Relates R th.rest)
    (hcode : ∀ e ∈ entries [l], ∀ m, Relates R (code e.2 m).body) (hs : step code s l = some t) :
    R s.shared t.shared ∧ ∀ th ∈ t.threads, Relates R th.rest := by
  cases l with
  | enter i o =>
    obtain ⟨own, _, rfl, _, _⟩ := enter_cases hs
    refine ⟨hrefl _, fun th hth => ?_⟩
    rcases mem_set_cases hth with rfl | ⟨j, _, hj⟩
    · exact hcode (i, o) List.mem_cons_self s.shared
    · exact hin th (List.mem_of_getElem? hj)
  | statement i =>
    simp only [step] at hs
    split at hs
    · rename_i own a hi
      split at hs
      · cases hs
      · rename_i f fs hbody
        cases hs
        have hrest : Relates R (f :: fs) := by
          have := hin _ (List.mem_of_getElem? hi)
          rwa [Thread.rest, Option.map_some, Option.getD_some, hbody] at this
        refine ⟨hrest f List.mem_cons_self (s.shared, own), fun th hth => ?_⟩
        rcases mem_set_cases hth with rfl | ⟨j, _, hj⟩
        · show Relates R a.body.tail
          rw [hbody]
          exact fun g hg => hrest g (List.mem_cons_of_mem _ hg)
        · exact hin th (List.mem_of_getElem? hj)
    · cases hs
  | leave i =>
    simp only [step] at hs
    split at hs
    · split at hs
      · cases hs
        refine ⟨hrefl _, fun th hth => ?_⟩
        rcases mem_set_cases hth with rfl | ⟨j, _, hj⟩
        · exact fun f hf => absurd hf List.not_mem_nil
        · exact hin th (List.mem_of_getElem? hj)
      · cases hs
    · cases hs

/-- **What every statement keeps holds between any two states of a run**, inside sections too. -/
theorem exec_related (hrefl : ∀ m, R m m) (htrans : ∀ m m' m'', R m m' → R m' m'' → R m m'')
    {ls : List (Label O)} {s t : State σ ρ} (hin : ∀ th ∈ s.threads, Relates R th.rest)
    (hcode : ∀ e ∈ entries ls, ∀ m, Relates R (code e.2 m).body) (hs : exec (step code) s ls = some t) :
    R s.shared t.shared ∧ ∀ th ∈ t.threads, Relates R th.rest := by
  induction ls generalizing s with
  | nil =>
    cases hs
    exact ⟨hrefl _, hin⟩
  | cons l ls ih =>
    have hsplit : entries (l :: ls) = entries [l] ++ entries ls := List.filterMap_append (l := [l])
    rw [hsplit] at hcode
    obtain ⟨u, hu, hs⟩ := exec_cons_some hs
    obtain ⟨hfirst, hin⟩ := step_related hrefl hin (fun e he => hcode e (List.mem_append_left _ he)) hu
    obtain ⟨hrest, hend⟩ := ih hin (fun e he => hcode e (List.mem_append_right _ he)) hs
    exact ⟨htrans _ _ _ hfirst hrest, hend⟩

/-- Once a thread has entered a section, no statement under way but its own changes the shared state. -/
theorem relates_enter (hrefl : ∀ m, R m m) {s t : State σ ρ} {i : Nat} {o : O}
    (hcode : Relates R (code o s.shared).body) (hs : step code s (.enter i o) = some t) :
    ∀ th ∈ t.threads, Relates R th.rest := by
  obtain ⟨own, _, rfl, hwriting, _⟩ := enter_cases hs
  intro th hth
  rcases mem_set_cases hth with rfl | ⟨j, _, hj⟩
  · exact hcode
  · have hmem := List.mem_of_getElem? hj
    intro f hf x
    cases hin : th.inside with
    | none =>
      rw [Thread.rest, hin] at hf
      cases hf
    | some a =>
      have hreads : a.writes = false := by
        have := hwriting th hmem
        rwa [Thread.writing, hin] at this
      rw [Thread.rest, hin] at hf
      rw [a.reads hreads f hf x]
      exact hrefl _

end Related

/-! ## What a thread keeps -/

/-- A thread that enters no section keeps its own state in the atomic system. -/
theorem own_of_no_entry {code : O → σ → Section σ ρ} {i : Nat} {es : List (Nat × O)} (h : ∀ e ∈ es, e.1 ≠ i)
    {x y : σ × List ρ} (hs : exec (atomicStep code) x es = some y) : y.2[i]? = x.2[i]? := by
  induction es generalizing x with
  | nil =>
    cases hs
    rfl
  | cons e es ih =>
    obtain ⟨z, hz, hs⟩ := exec_cons_some hs
    rw [ih (fun e' he' => h e' (List.mem_cons_of_mem _ he')) hs]
    obtain ⟨j, o⟩ := e
    obtain ⟨own, _, rfl⟩ := Option.map_eq_some_iff.mp hz
    exact List.getElem?_set_ne (h (j, o) List.mem_cons_self)

end Critical
