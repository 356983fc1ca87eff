import LaManchaland.Lib.Frozen

/-!
# Which threads can still end

In a tidy pool, a thread that has an inner lock can run to its release, so an inner lock can always be made free, and
then a thread can get to its next action on the outer lock (`approach`). The outer lock, too, can be made free unless it
is frozen (`clear`): its readers leave it one after the other, then its writer takes it and leaves it.

`ends_iff`: from a tidy state, a thread can still end exactly when it does not take the outer lock inside itself and, if
that lock is frozen, does not take it at all.
-/

namespace Locks

open Runs

variable {K O W : Type*} [DecidableEq K]

/-! ## Ways -/

/-- There is a run from `s` to `t`. -/
def Path (prog : O → List (Act K O W)) (s t : Pool K O W) : Prop := ∃ ls, exec (step prog) s ls = some t

/-- Thread `j` ends in a run from `s`. -/
def CanEnd (prog : O → List (Act K O W)) (s : Pool K O W) (j : Nat) : Prop :=
  ∃ t, Path prog s t ∧ t.threads[j]? = some []

section Path

variable {prog : O → List (Act K O W)} {s t u : Pool K O W} {i j : Nat} {k k₀ : K} {p rest : List (Act K O W)}

theorem Path.refl (s : Pool K O W) : Path prog s s := ⟨[], rfl⟩

theorem Path.trans (h : Path prog s t) (h' : Path prog t u) : Path prog s u := by
  obtain ⟨ls, h⟩ := h
  obtain ⟨ms, h'⟩ := h'
  exact ⟨ls ++ ms, exec_trans h h'⟩

theorem Path.of_step (h : step prog s i = some t) : Path prog s t := ⟨[i], by simp [h]⟩

theorem Path.tidy (hprog : ∀ o k, Nested k₀ k .none (prog o)) (hs : Tidy k₀ s) (h : Path prog s t) : Tidy k₀ t := by
  obtain ⟨ls, h⟩ := h
  exact tidy_exec hprog hs h

theorem CanEnd.of_path (h : Path prog s t) (hend : CanEnd prog t j) : CanEnd prog s j := by
  obtain ⟨u, hu, hj⟩ := hend
  exact ⟨u, h.trans hu, hj⟩

omit [DecidableEq K] in
theorem suffix_move {a : Act K O W} (new : List (List (Act K O W))) (hi : s.threads[i]? = some (a :: rest))
    (hj : s.threads[j]? = some p) : ∃ q, (s.threads.set i rest ++ new)[j]? = some q ∧ q <:+ p := by
  by_cases hij : j = i
  · subst hij
    rw [hi] at hj
    cases hj
    exact ⟨rest, Threads.getElem?_move_self hi, List.suffix_cons a rest⟩
  · exact ⟨p, Threads.getElem?_move_ne hj hij, List.suffix_refl p⟩

/-- A thread has less to do after a step. -/
theorem suffix_step (h : step prog s i = some t) (hj : s.threads[j]? = some p) :
    ∃ q, t.threads[j]? = some q ∧ q <:+ p := by
  cases step_spec h with
  | announce hi hw => exact ⟨p, hj, List.suffix_refl p⟩
  | @go o rest hi => exact suffix_move [prog o] hi hj
  | lock hi _ _ | unlock hi _ | rlock hi _ | runlock hi _ | work hi =>
    simpa only [List.append_nil] using suffix_move [] hi hj

theorem Path.suffix (h : Path prog s t) (hj : s.threads[j]? = some p) : ∃ q, t.threads[j]? = some q ∧ q <:+ p := by
  obtain ⟨ls, h⟩ := h
  have hstep : ∀ (s : Pool K O W) (i : Nat) (t : Pool K O W), (∃ q, s.threads[j]? = some q ∧ q <:+ p) →
      step prog s i = some t → ∃ q, t.threads[j]? = some q ∧ q <:+ p := by
    rintro s i t ⟨q, hq, hsuf⟩ h
    obtain ⟨r, hr, hsuf'⟩ := suffix_step h hq
    exact ⟨r, hr, hsuf'.trans hsuf⟩
  exact exec_invariant hstep ⟨p, hj, List.suffix_refl p⟩ h

/-- A doomed thread never ends. -/
theorem Doomed.not_canEnd (hprog : ∀ o k, Nested k₀ k .none (prog o)) (hs : Tidy k₀ s) (hd : Doomed k j s) :
    ¬CanEnd prog s j := by
  rintro ⟨t, ⟨ls, h⟩, hj⟩
  have hstep : ∀ (s : Pool K O W) (i : Nat) (t : Pool K O W), Tidy k₀ s ∧ Doomed k j s → step prog s i = some t →
      Tidy k₀ t ∧ Doomed k j t := fun _ _ _ hs h => ⟨tidy_step hprog hs.1 h, doomed_step hs.1 hs.2 h⟩
  exact (exec_invariant hstep ⟨hs, hd⟩ h).2.not_ended hj

/-- A step past an action that is not on the lock. -/
theorem aside_step {a : Act K O W} (h : step prog s i = some t) (hi : s.threads[i]? = some (a :: rest))
    (ha : a.on k = false) : Aside k s t := by
  have hon : ∀ {b : Act K O W} {r}, s.threads[i]? = some (b :: r) → b.on k = true → False := fun hb hbon => by
    rw [hi] at hb
    cases hb
    rw [ha] at hbon
    cases hbon
  cases lock_step k h with
  | aside h => exact h
  | announce hi' _ | lock hi' _ _ | unlock hi' _ | rlock hi' _ | runlock hi' _ =>
    exact (hon hi' (decide_eq_true rfl)).elim

theorem step_unlock (hi : s.threads[i]? = some (.unlock k :: rest)) (hw : s.writer k = .holding i) :
    step prog s i = some { s with threads := s.threads.set i rest, writer := Function.update s.writer k .free } := by
  simp [step, hi, hw]

theorem step_rlock (hi : s.threads[i]? = some (.rlock k :: rest)) (hw : s.writer k = .free) :
    step prog s i = some
      { s with threads := s.threads.set i rest, readers := Function.update s.readers k (i :: s.readers k) } := by
  simp [step, hi, hw]

theorem step_runlock (hi : s.threads[i]? = some (.runlock k :: rest)) (hr : i ∈ s.readers k) :
    step prog s i = some { s with
      threads := s.threads.set i rest, readers := Function.update s.readers k ((s.readers k).erase i) } := by
  simp [step, hi, hr]

/-- A thread releases what it has. -/
theorem release_step {a : Act K O W} (hs : Tidy k₀ s) (hi : s.threads[i]? = some (a :: rest)) (ha : a.on k = true)
    (hask : a.asks k = false) : ∃ t, step prog s i = some t ∧ t.threads[i]? = some rest ∧
      (t.writer k = .free ∨ t.writer k = s.writer k) := by
  have hpermits := (hs.nested k i _ hi).1
  cases a with
  | lock k' | rlock k' => exact absurd (ha.symm.trans hask) (by decide)
  | go o | work w => cases ha
  | unlock k' =>
    obtain rfl : k' = k := by simpa [Act.on] using ha
    have hw : s.writer k' = .holding i := by simpa [Permits, holdOf] using hpermits
    exact ⟨_, step_unlock hi hw, Threads.getElem?_set_self hi, .inl (Function.update_self _ _ _)⟩
  | runlock k' =>
    obtain rfl : k' = k := by simpa [Act.on] using ha
    have hr : i ∈ s.readers k' := by simpa [Permits, holdOf] using hpermits
    exact ⟨_, step_runlock hi hr, Threads.getElem?_set_self hi, .inr rfl⟩

/-- A lock that is not frozen is not frozen by a thread that has it. -/
theorem held_step {a : Act K O W} (hs : Tidy k₀ s) (hf : ¬Frozen k s) (hi : s.threads[i]? = some (a :: rest))
    (ha : a.on k = true) (hh : holdOf s k i ≠ .none) : ∃ t, step prog s i = some t ∧ t.threads[i]? = some rest ∧
      ¬Frozen k t ∧ (t.writer k = .free ∨ t.writer k = s.writer k) := by
  cases hask : a.asks k with
  | false =>
    obtain ⟨t, ht, hrest, hw⟩ := release_step hs hi ha hask
    refine ⟨t, ht, hrest, fun hft => ?_, hw⟩
    rcases hw with hw | hw
    · exact hft.taken hw
    · exact hf (frozen_back hs hft ht (hw ▸ hft.taken))
  | true =>
    cases a with
    | lock k' =>
      obtain rfl : k' = k := by simpa [Act.asks] using hask
      exact absurd ((hs.nested k' i _ hi).1 (.inl rfl)) hh
    | rlock k' =>
      obtain rfl : k' = k := by simpa [Act.asks] using hask
      have hre : retakes k' (holdOf s k' i) (.rlock k' :: rest) = true := by
        rw [retakes, decide_eq_true hh, hask]
        rfl
      have hw : s.writer k' = .free := by
        by_contra hw
        exact hf (.inside hi hre hw)
      exact ⟨_, step_rlock hi hw, Threads.getElem?_set_self hi, fun hft => hft.taken hw, .inl hw⟩
    | _ => cases hask

theorem holdOf_step_ne (h : step prog s i = some t) (hj : j ≠ i) : holdOf t k j = holdOf s k j := by
  rcases step_hold k h with ⟨_, hsame⟩ | ⟨a, rest, new, m⟩
  · exact hsame j
  · exact m.others j hj

end Path

/-! ## A lock is made free -/

/-- A thread that has lock `k` can get to its next action on it, and the runs that are needed satisfy `R`. -/
structure Passable (prog : O → List (Act K O W)) (k₀ k : K) (R : Pool K O W → Pool K O W → Prop) : Prop where
  refl : ∀ s, R s s
  trans : ∀ s t u, R s t → R t u → R s u
  of_step : ∀ s i t a rest, s.threads[i]? = some (a :: rest) → a.on k = true → step prog s i = some t → R s t
  approach : ∀ s i p, Tidy k₀ s → s.threads[i]? = some p → holdOf s k i ≠ .none → ∃ t, Path prog s t ∧ R s t ∧
    Aside k s t ∧ ∃ a rest, t.threads[i]? = some (a :: rest) ∧ a.on k = true

section Clear

variable {prog : O → List (Act K O W)} {s t u : Pool K O W} {i j : Nat} {k k₀ : K} {p rest : List (Act K O W)}
  {R : Pool K O W → Pool K O W → Prop}

/-- A thread leaves a lock that is not frozen. -/
theorem leave (hprog : ∀ o k, Nested k₀ k .none (prog o)) (hR : Passable prog k₀ k R) (hs : Tidy k₀ s)
    (hf : ¬Frozen k s) (hi : s.threads[i]? = some p) : ∃ t, Path prog s t ∧ R s t ∧ ¬Frozen k t ∧
      holdOf t k i = .none ∧ (∀ j, j ≠ i → holdOf t k j = holdOf s k j) ∧
      (t.writer k = .free ∨ t.writer k = s.writer k) := by
  induction hn : p.length using Nat.strongRecOn generalizing s p with
  | ind n ih =>
    by_cases hh : holdOf s k i = .none
    · exact ⟨s, .refl s, hR.refl s, hf, hh, fun _ _ => rfl, .inr rfl⟩
    · obtain ⟨t, hpath, hrel, haside, a, rest, ht, ha⟩ := hR.approach s i p hs hi hh
      have hts := hpath.tidy hprog hs
      have hft : ¬Frozen k t := fun h => hf (h.of_aside hs haside)
      obtain ⟨u, hu, hrest, hfu, hwu⟩ := held_step hts hft ht ha (haside.hold i ▸ hh)
      have hlen : rest.length < n := by
        obtain ⟨q, hq, hsuf⟩ := hpath.suffix hi
        rw [ht] at hq
        cases hq
        exact hn ▸ hsuf.length_le
      obtain ⟨v, hv, hrelv, hfv, hown, hother, hwv⟩ := ih _ hlen (tidy_step hprog hts hu) hfu hrest rfl
      refine ⟨v, hpath.trans ((Path.of_step hu).trans hv),
        hR.trans _ _ _ hrel (hR.trans _ _ _ (hR.of_step _ _ _ _ _ ht ha hu) hrelv), hfv, hown, fun j hj => ?_, ?_⟩
      · rw [hother j hj, holdOf_step_ne hu hj, haside.hold]
      · rw [← haside.writer]
        rcases hwv with hwv | hwv
        · exact .inl hwv
        · exact hwv ▸ hwu

omit [DecidableEq K] in
theorem mem_readers_iff : i ∈ s.readers k ↔ (holdOf s k i).reads ≠ 0 := by
  rw [holdOf, ← List.count_pos_iff, Nat.pos_iff_ne_zero]

omit [DecidableEq K] in
theorem holding_iff : s.writer k = .holding i ↔ (holdOf s k i).writes = true := by
  simp [holdOf]

theorem Tidy.lt_of_holdOf (hs : Tidy k₀ s) (hh : holdOf s k i ≠ .none) : i < s.threads.length := by
  by_contra hge
  exact hh (hs.bound k i (not_lt.mp hge))

/-- The readers of a lock that is not frozen leave it. -/
theorem drain (hprog : ∀ o k, Nested k₀ k .none (prog o)) (hR : Passable prog k₀ k R) (hs : Tidy k₀ s)
    (hf : ¬Frozen k s) : ∃ t, Path prog s t ∧ R s t ∧ ¬Frozen k t ∧ t.readers k = [] := by
  induction hn : (s.readers k).toFinset using Finset.strongInduction generalizing s with
  | H n ih =>
    cases hr : s.readers k with
    | nil => exact ⟨s, .refl s, hR.refl s, hf, hr⟩
    | cons i rs =>
      have hmem : i ∈ s.readers k := hr ▸ List.mem_cons_self
      have hlt := hs.lt_of_holdOf fun hnone => mem_readers_iff.mp hmem (congrArg Hold.reads hnone)
      obtain ⟨t, hpath, hrel, hft, hown, hother, -⟩ := leave hprog hR hs hf (List.getElem?_eq_getElem hlt)
      have hout : i ∉ t.readers k := fun hi => mem_readers_iff.mp hi (congrArg Hold.reads hown)
      have hless : (t.readers k).toFinset ⊂ n := by
        rw [← hn, Finset.ssubset_iff_of_subset fun j hj => ?_]
        · exact ⟨i, List.mem_toFinset.mpr hmem, fun hi => hout (List.mem_toFinset.mp hi)⟩
        · rw [List.mem_toFinset] at hj ⊢
          have hji : j ≠ i := fun he => hout (he ▸ hj)
          rwa [mem_readers_iff, ← hother j hji, ← mem_readers_iff]
      obtain ⟨u, hu, hrelu, hfu, hnil⟩ := ih _ hless (hpath.tidy hprog hs) hft rfl
      exact ⟨u, hpath.trans hu, hR.trans _ _ _ hrel hrelu, hfu, hnil⟩

/-- A writer leaves a lock that nobody reads, and then it is free. -/
theorem leave_holding (hprog : ∀ o k, Nested k₀ k .none (prog o)) (hR : Passable prog k₀ k R) (hs : Tidy k₀ s)
    (hf : ¬Frozen k s) (hw : s.writer k = .holding i) : ∃ t, Path prog s t ∧ R s t ∧ ¬Frozen k t ∧
      t.writer k = .free ∧ t.readers k = [] := by
  have hholds := hs.holdOf_holding hw
  have hlt := hs.lt_of_holdOf fun hnone => by
    rw [hholds i, decide_eq_true rfl] at hnone
    cases hnone
  obtain ⟨t, hpath, hrel, hft, hown, hother, hwt⟩ := leave hprog hR hs hf (List.getElem?_eq_getElem hlt)
  have hnone : ∀ j, holdOf t k j = .none := fun j => by
    by_cases hj : j = i
    · rw [hj, hown]
    · rw [hother j hj, hholds j, decide_eq_false (Ne.symm hj)]
      rfl
  refine ⟨t, hpath, hrel, hft, ?_, List.eq_nil_iff_forall_not_mem.mpr fun j hj => ?_⟩
  · refine hwt.resolve_right fun hwt => ?_
    have hwrites := holding_iff.mp (hwt.trans hw)
    rw [hnone i] at hwrites
    cases hwrites
  · exact mem_readers_iff.mp hj (congrArg Hold.reads (hnone j))

/-- **A lock that is not frozen can be made free.** -/
theorem clear (hprog : ∀ o k, Nested k₀ k .none (prog o)) (hR : Passable prog k₀ k R) (hs : Tidy k₀ s)
    (hf : ¬Frozen k s) : ∃ t, Path prog s t ∧ R s t ∧ ¬Frozen k t ∧ t.writer k = .free ∧ t.readers k = [] := by
  obtain ⟨t, hpath, hrel, hft, hnil⟩ := drain hprog hR hs hf
  have hts := hpath.tidy hprog hs
  cases hw : t.writer k with
  | free => exact ⟨t, hpath, hrel, hft, hw, hnil⟩
  | holding i =>
    obtain ⟨u, hu, hrelu, hend⟩ := leave_holding hprog hR hts hft hw
    exact ⟨u, hpath.trans hu, hR.trans _ _ _ hrel hrelu, hend⟩
  | waiting i =>
    obtain ⟨rest, hi⟩ := hts.announced k i hw
    have hstep : step prog t i = some { t with
        threads := t.threads.set i rest, writer := Function.update t.writer k (.holding i) } := by
      simp [step, hi, hw, hnil]
    have hfl := mt (fun h => frozen_back hts h hstep (by simp [hw])) hft
    obtain ⟨u, hu, hrelu, hend⟩ :=
      leave_holding hprog hR (tidy_step hprog hts hstep) hfl (Function.update_self k (.holding i) t.writer)
    exact ⟨u, hpath.trans ((Path.of_step hstep).trans hu), hR.trans _ _ _ hrel
      (hR.trans _ _ _ (hR.of_step _ _ _ _ _ hi (decide_eq_true rfl) hstep) hrelu), hend⟩

end Clear

/-! ## Inner locks -/

section Inner

variable {prog : O → List (Act K O W)} {s t u : Pool K O W} {i j : Nat} {k k₀ : K} {p rest : List (Act K O W)}

theorem retakes_inner (hk : k ≠ k₀) {h : Hold} (hp : Nested k₀ k h p) : retakes k h p = false := by
  induction p generalizing h with
  | nil => rfl
  | cons a p ih =>
    rw [retakes, ih hp.2, Bool.or_false]
    by_cases hh : h = .none
    · rw [decide_eq_false (not_not.mpr hh), Bool.false_and]
    · cases a with
      | lock k' => exact absurd (hp.1 (.inr hk)) hh
      | rlock k' => exact absurd (hp.1 hk) hh
      | _ => exact Bool.and_false _

/-- An inner lock is never frozen. -/
theorem not_frozen_inner (hs : Tidy k₀ s) (hk : k ≠ k₀) : ¬Frozen k s := by
  intro hf
  cases hf with
  | inside hi hp _ =>
    rw [retakes_inner hk (hs.nested k _ _ hi)] at hp
    cases hp
  | announced hi hp _ =>
    obtain ⟨hpermits, hrest⟩ := hs.nested k _ _ hi
    rw [hpermits (.inl rfl), Hold.after, if_pos rfl] at hrest
    exact absurd (hp.symm.trans (retakes_inner hk hrest)) (by decide)

theorem on_ne {a : Act K O W} (ha : a.on k = true) (hk : k ≠ k₀) : a.on k₀ = false := by
  cases a with
  | go o | work w => rfl
  | lock k' | unlock k' | rlock k' | runlock k' =>
    obtain rfl : k' = k := by simpa [Act.on] using ha
    exact decide_eq_false hk

variable (prog) in
/-- A step past an action outside the locks. -/
theorem outside_step {a : Act K O W} (hi : s.threads[i]? = some (a :: rest)) (ha : ∀ k, a.on k = false) :
    ∃ t, step prog s i = some t ∧ t.threads[i]? = some rest := by
  cases a with
  | lock k' | unlock k' | rlock k' | runlock k' => exact absurd ((ha k').symm.trans (decide_eq_true rfl)) (by decide)
  | go o =>
    have ht : step prog s i = some { s with threads := s.threads.set i rest ++ [prog o] } := by simp [step, hi]
    exact ⟨_, ht, Threads.getElem?_move_self hi⟩
  | work w =>
    have ht : step prog s i = some { s with threads := s.threads.set i rest } := by simp [step, hi]
    exact ⟨_, ht, Threads.getElem?_set_self hi⟩

/-- A thread that has an inner lock gets to its release, away from the outer lock. -/
theorem passable_inner (hprog : ∀ o k, Nested k₀ k .none (prog o)) (hk : k ≠ k₀) :
    Passable prog k₀ k (Aside k₀) where
  refl := .refl
  trans _ _ _ := .trans
  of_step _ _ _ _ _ hi ha h := aside_step h hi (on_ne ha hk)
  approach s i p hs hi hh := by
    induction p generalizing s with
    | nil => exact absurd (hs.nested k i _ hi) hh
    | cons a p ih =>
      cases ha : a.on k with
      | true => exact ⟨s, .refl s, .refl s, .refl s, a, p, hi, ha⟩
      | false =>
        have hout : ∀ k', a.on k' = false := by
          have hpermits := (hs.nested k i _ hi).1
          cases a with
          | go o | work w => exact fun _ => rfl
          | lock k' => exact absurd (hpermits (.inr hk)) hh
          | rlock k' => exact absurd (hpermits hk) hh
          | unlock k' | runlock k' =>
            rw [Permits, if_neg (by simpa [Act.on] using ha)] at hpermits
            exact absurd (hpermits hk) hh
        obtain ⟨t, ht, hrest⟩ := outside_step prog hi hout
        have haside := aside_step ht hi ha
        obtain ⟨u, hu, hrel, hasideu, hend⟩ := ih t (tidy_step hprog hs ht) hrest (haside.hold i ▸ hh)
        exact ⟨u, (Path.of_step ht).trans hu, (aside_step ht hi (hout k₀)).trans hrel, haside.trans hasideu, hend⟩

/-- A thread goes past an action that is not on the outer lock. -/
theorem advance {a : Act K O W} (hprog : ∀ o k, Nested k₀ k .none (prog o)) (hs : Tidy k₀ s)
    (hi : s.threads[i]? = some (a :: rest)) (ha : a.on k₀ = false) :
    ∃ t q, Path prog s t ∧ Aside k₀ s t ∧ t.threads[i]? = some q ∧ q <:+ rest := by
  have of_step : ∀ {t}, step prog s i = some t → t.threads[i]? = some rest →
      ∃ t q, Path prog s t ∧ Aside k₀ s t ∧ t.threads[i]? = some q ∧ q <:+ rest := fun ht hrest =>
    ⟨_, rest, Path.of_step ht, aside_step ht hi ha, hrest, List.suffix_refl rest⟩
  have of_clear : ∀ {k}, a.on k = true → ∃ t, Path prog s t ∧ Aside k₀ s t ∧ t.writer k = .free ∧ t.readers k = [] ∧
      (t.threads[i]? = some (a :: rest) ∨ ∃ q, t.threads[i]? = some q ∧ q <:+ rest) := by
    intro k hk
    have hne : k ≠ k₀ := by
      rintro rfl
      rw [hk] at ha
      cases ha
    obtain ⟨t, hpath, hrel, -, hfree, hnil⟩ :=
      clear hprog (passable_inner hprog hne) hs (not_frozen_inner hs hne)
    obtain ⟨q, hq, hsuf⟩ := hpath.suffix hi
    refine ⟨t, hpath, hrel, hfree, hnil, ?_⟩
    rcases List.suffix_cons_iff.mp hsuf with rfl | hsuf
    · exact .inl hq
    · exact .inr ⟨q, hq, hsuf⟩
  cases a with
  | go o | work w =>
    obtain ⟨t, ht, hrest⟩ := outside_step prog hi fun _ => rfl
    exact of_step ht hrest
  | unlock k | runlock k =>
    obtain ⟨t, ht, hrest, -⟩ := release_step hs hi (k := k) (decide_eq_true rfl) rfl
    exact of_step ht hrest
  | lock k =>
    obtain ⟨t, hpath, hrel, hfree, hnil, ht | ⟨q, hq, hsuf⟩⟩ := of_clear (k := k) (decide_eq_true rfl)
    · have hk : k₀ ≠ k := fun he => by simp [Act.on, he] at ha
      refine ⟨_, rest, hpath.trans ⟨[i, i], exec_lock ht hfree hnil⟩, hrel.trans ?_, Threads.getElem?_set_self ht,
        List.suffix_refl rest⟩
      exact .of_move ht ha (List.append_nil _).symm (Function.update_of_ne hk _ _) rfl
    · exact ⟨t, q, hpath, hrel, hq, hsuf⟩
  | rlock k =>
    obtain ⟨t, hpath, hrel, hfree, hnil, ht | ⟨q, hq, hsuf⟩⟩ := of_clear (k := k) (decide_eq_true rfl)
    · have hstep : step prog t i = some _ := step_rlock ht hfree
      exact ⟨_, rest, hpath.trans (.of_step hstep), hrel.trans (aside_step hstep ht ha), Threads.getElem?_set_self ht,
        List.suffix_refl rest⟩
    · exact ⟨t, q, hpath, hrel, hq, hsuf⟩

/-- A thread gets to its next action on the outer lock, or ends. -/
theorem approach (hprog : ∀ o k, Nested k₀ k .none (prog o)) (hs : Tidy k₀ s) (hi : s.threads[i]? = some p) :
    ∃ t q, Path prog s t ∧ Aside k₀ s t ∧ t.threads[i]? = some q ∧ q <:+ p ∧
      (q = [] ∨ ∃ a rest, q = a :: rest ∧ a.on k₀ = true) := by
  induction hn : p.length using Nat.strongRecOn generalizing s p with
  | ind n ih =>
    cases p with
    | nil => exact ⟨s, [], .refl s, .refl s, hi, List.suffix_refl _, .inl rfl⟩
    | cons a p =>
      cases ha : a.on k₀ with
      | true => exact ⟨s, a :: p, .refl s, .refl s, hi, List.suffix_refl _, .inr ⟨a, p, rfl, ha⟩⟩
      | false =>
        obtain ⟨t, q, hpath, haside, hq, hsuf⟩ := advance hprog hs hi ha
        have hlen : q.length < n := hn ▸ Nat.lt_succ_of_le hsuf.length_le
        obtain ⟨u, r, hu, hasideu, hr, hsufr, hend⟩ := ih _ hlen (hpath.tidy hprog hs) hq rfl
        exact ⟨u, r, hpath.trans hu, haside.trans hasideu, hr, hsufr.trans (hsuf.trans (List.suffix_cons a p)), hend⟩

theorem passable_outer (hprog : ∀ o k, Nested k₀ k .none (prog o)) : Passable prog k₀ k₀ fun _ _ => True where
  refl _ := trivial
  trans _ _ _ _ _ := trivial
  of_step _ _ _ _ _ _ _ _ := trivial
  approach s i p hs hi hh := by
    obtain ⟨t, q, hpath, haside, hq, -, rfl | ⟨a, rest, rfl, ha⟩⟩ := approach hprog hs hi
    · have hnone : holdOf t k₀ i = .none := (hpath.tidy hprog hs).nested k₀ i _ hq
      exact absurd (haside.hold i ▸ hnone) hh
    · exact ⟨t, hpath, trivial, haside, a, rest, hq, ha⟩

end Inner

/-! ## Which threads can end -/

section Ends

variable {prog : O → List (Act K O W)} {s t u : Pool K O W} {j : Nat} {k₀ : K} {p rest : List (Act K O W)}

/-- A thread that does not take the outer lock any more can end. -/
theorem canEnd_of_not_asks (hprog : ∀ o k, Nested k₀ k .none (prog o)) (hs : Tidy k₀ s) (hj : s.threads[j]? = some p)
    (hp : ¬Asks k₀ p) : CanEnd prog s j := by
  induction hn : p.length using Nat.strongRecOn generalizing s p with
  | ind n ih =>
    obtain ⟨t, q, hpath, -, hq, hsuf, rfl | ⟨a, rest, rfl, ha⟩⟩ := approach hprog hs hj
    · exact ⟨t, hpath, hq⟩
    · have hts := hpath.tidy hprog hs
      have hask : a.asks k₀ = false := Bool.eq_false_iff.mpr fun hask => hp ⟨a, hsuf.subset List.mem_cons_self, hask⟩
      obtain ⟨u, hu, hrest, -⟩ := release_step hts hq ha hask
      have hlen : rest.length < n := hn ▸ hsuf.length_le
      refine .of_path (hpath.trans (.of_step hu)) (ih _ hlen (tidy_step hprog hts hu) hrest (fun hr => hp ?_) rfl)
      obtain ⟨b, hb, hask⟩ := hr
      exact ⟨b, hsuf.subset (List.mem_cons_of_mem _ hb), hask⟩

theorem Relocks.of_suffix {q : List (Act K O W)} (h : Relocks k₀ q) (hsuf : q <:+ p) : Relocks k₀ p := by
  obtain ⟨rest, hrest, hre⟩ := h
  exact ⟨rest, hrest.trans hsuf, hre⟩

variable (prog) in
/-- A thread takes the outer lock when it is free, and does not freeze it. -/
theorem take_step {a : Act K O W} (hs : Tidy k₀ s) (hj : s.threads[j]? = some (a :: rest)) (hask : a.asks k₀ = true)
    (hp : ¬Relocks k₀ (a :: rest)) (hw : s.writer k₀ = .free) (hr : s.readers k₀ = []) :
    ∃ t, Path prog s t ∧ ¬Frozen k₀ t ∧ t.threads[j]? = some rest := by
  cases a with
  | unlock k | runlock k | go o | work w => cases hask
  | rlock k =>
    obtain rfl : k = k₀ := by simpa [Act.asks] using hask
    exact ⟨_, .of_step (step_rlock hj hw), fun hf => hf.taken hw, Threads.getElem?_set_self hj⟩
  | lock k =>
    obtain rfl : k = k₀ := by simpa [Act.asks] using hask
    refine ⟨_, ⟨[j, j], exec_lock hj hw hr⟩, fun hf => ?_, Threads.getElem?_set_self hj⟩
    cases hf with
    | @inside i q hi hre _ =>
      by_cases hij : i = j
      · subst hij
        rw [Threads.getElem?_set_self hj] at hi
        cases hi
        simp only [holdOf, Function.update_self, hr] at hre
        exact hp ⟨rest, List.suffix_refl _, by simpa using hre⟩
      · simp only [holdOf, Function.update_self, hr] at hre
        have hnone : retakes k .none q = true := by simpa [Hold.none, Ne.symm hij] using hre
        exact absurd (hnone.symm.trans retakes_none) (by decide)
    | announced _ _ hwait => simp at hwait

/-- A thread that does not take the outer lock inside itself can end, if the lock is not frozen. -/
theorem canEnd_of_not_frozen (hprog : ∀ o k, Nested k₀ k .none (prog o)) (hs : Tidy k₀ s) (hf : ¬Frozen k₀ s)
    (hj : s.threads[j]? = some p) (hp : ¬Relocks k₀ p) : CanEnd prog s j := by
  induction hn : p.length using Nat.strongRecOn generalizing s p with
  | ind n ih =>
    -- what is left after a way that takes the thread further
    have goes_on : ∀ {t q}, Path prog s t → ¬Frozen k₀ t → t.threads[j]? = some q → q <:+ p → q.length < n →
        CanEnd prog s j := fun hpath hft hq hsuf hlen =>
      .of_path hpath (ih _ hlen (hpath.tidy hprog hs) hft hq (fun hr => hp (hr.of_suffix hsuf)) rfl)
    obtain ⟨t, q, hpath, haside, hq, hsuf, rfl | ⟨a, rest, rfl, ha⟩⟩ := approach hprog hs hj
    · exact ⟨t, hpath, hq⟩
    · have hts := hpath.tidy hprog hs
      have hft : ¬Frozen k₀ t := fun h => hf (h.of_aside hs haside)
      have hrest : rest <:+ p := (List.suffix_cons a rest).trans hsuf
      have hlen : rest.length < n := hn ▸ hsuf.length_le
      cases hask : a.asks k₀ with
      | false =>
        obtain ⟨u, hu, hqu, hwu⟩ := release_step hts hq ha hask
        refine goes_on (hpath.trans (.of_step hu)) (fun hfu => ?_) hqu hrest hlen
        rcases hwu with hwu | hwu
        · exact hfu.taken hwu
        · exact hft (frozen_back hts hfu hu (hwu ▸ hfu.taken))
      | true =>
        obtain ⟨u, hu, -, hfu, hwu, hru⟩ := clear hprog (passable_outer hprog) hts hft
        obtain ⟨r, hr, hsufr⟩ := hu.suffix hq
        rcases List.suffix_cons_iff.mp hsufr with rfl | hsufr
        · have hre : ¬Relocks k₀ (a :: rest) := fun h => hp (h.of_suffix hsuf)
          obtain ⟨v, hv, hfv, hrv⟩ := take_step prog (hu.tidy hprog hts) hr hask hre hwu hru
          exact goes_on (hpath.trans (hu.trans hv)) hfv hrv hrest hlen
        · exact goes_on (hpath.trans hu) hfu hr (hsufr.trans hrest) (hsufr.length_le.trans_lt hlen)

/-- **Exactly which threads can still end.** -/
theorem ends_iff (hprog : ∀ o k, Nested k₀ k .none (prog o)) (hs : Tidy k₀ s) (hj : s.threads[j]? = some p) :
    CanEnd prog s j ↔ ¬Relocks k₀ p ∧ (Frozen k₀ s → ¬Asks k₀ p) := by
  constructor
  · intro hend
    refine ⟨fun hr => ?_, fun hf ha => ?_⟩
    · exact Doomed.not_canEnd hprog hs ⟨p, hj, .inl hr⟩ hend
    · exact Doomed.not_canEnd hprog hs ⟨p, hj, .inr ⟨hf, ha⟩⟩ hend
  · rintro ⟨hr, ha⟩
    by_cases hf : Frozen k₀ s
    · exact canEnd_of_not_asks hprog hs hj (ha hf)
    · exact canEnd_of_not_frozen hprog hs hf hj hr

theorem Path.frozen (hprog : ∀ o k, Nested k₀ k .none (prog o)) (hs : Tidy k₀ s) (hf : Frozen k₀ s)
    (h : Path prog s t) : Frozen k₀ t := by
  obtain ⟨ls, h⟩ := h
  have hstep : ∀ (s : Pool K O W) (i : Nat) (t : Pool K O W), Tidy k₀ s ∧ Frozen k₀ s → step prog s i = some t →
      Tidy k₀ t ∧ Frozen k₀ t := fun _ _ _ hs h => ⟨tidy_step hprog hs.1 h, frozen_step hs.1 hs.2 h⟩
  exact (exec_invariant hstep ⟨hs, hf⟩ h).2

/-- **A thread whose every lock is around another one** freezes the lock as soon as it asks for it. -/
theorem Path.frozen_of_relocks (hprog : ∀ o k, Nested k₀ k .none (prog o)) (hs : Tidy k₀ s)
    (hj : s.threads[j]? = some p) (hfree : s.writer k₀ ≠ .holding j)
    (hp : ∀ rest, .lock k₀ :: rest <:+ p → retakes k₀ ⟨0, true⟩ rest = true) (h : Path prog s t)
    (hw : t.writer k₀ = .waiting j ∨ t.writer k₀ = .holding j) : Frozen k₀ t := by
  have htidy := h.tidy hprog hs
  have hlocked : ∀ {u} {rest : List (Act K O W)}, Path prog s u → u.threads[j]? = some (.lock k₀ :: rest) →
      retakes k₀ ⟨0, true⟩ rest = true := by
    intro u rest hu hrest
    obtain ⟨q, hq, hsuf⟩ := hu.suffix hj
    rw [hrest] at hq
    cases hq
    exact hp rest hsuf
  rcases hw with hw | hw
  · obtain ⟨rest, hrest⟩ := htidy.announced k₀ j hw
    exact .announced hrest (hlocked h hrest) hw
  · obtain ⟨ls, h⟩ := h
    have hstep : ∀ (u : Pool K O W) (i : Nat) (v : Pool K O W),
        Path prog s u ∧ (u.writer k₀ = .holding j → Frozen k₀ u) → step prog u i = some v →
        Path prog s v ∧ (v.writer k₀ = .holding j → Frozen k₀ v) := by
      rintro u i v ⟨hu, hfu⟩ hv
      refine ⟨hu.trans (.of_step hv), fun hvw => ?_⟩
      have kept : u.writer k₀ = .holding j → Frozen k₀ v := fun huw =>
        frozen_step (hu.tidy hprog hs) (hfu huw) hv
      cases lock_step k₀ hv with
      | aside h => exact kept (h.writer ▸ hvw)
      | announce _ _ => simp at hvw
      | lock hi _ hr =>
        obtain rfl : i = j := by simpa using hvw
        exact frozen_lock hi hr (hlocked hu hi)
      | unlock _ _ => simp at hvw
      | rlock _ _ => exact kept hvw
      | runlock _ _ => exact kept hvw
    exact (exec_invariant hstep ⟨.refl s, fun hw => absurd hw hfree⟩ h).2 hw

end Ends

end Locks
