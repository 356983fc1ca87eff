import LaManchaland.Llmserver.Machine

/-!
# Live children

`LiveAt m i`: child `i` is alive with an un-cancelled context. For each locked function, which children are live
afterwards: `stopLocked` ends the owner of `s.cancel` and no other (`liveAt_stopLocked`), a launch adds its own child
(`liveAt_launch`), an exit ends one child (`liveAt_exit`), the update of an exit goroutine none (`liveAt_update`). The
last three hold of whatever only running children have (`child_launch`, `child_exit`, `child_update`).
-/

namespace LaManchaland.Llmserver

variable {m m' : Machine} {env : Env}

/-! ## Children that have a property -/

section Children

variable {P : Child → Prop} {i j : Nat}

/-- A launch adds its own child, which has what a new child has. -/
theorem child_launch {p : String} (hnew : P ⟨p, m.srv.buildArgs, false, false, false⟩) :
    (∃ c, (launch p m).children[i]? = some c ∧ P c) ↔
      (∃ c, m.children[i]? = some c ∧ P c) ∨ i = m.children.length := by
  simp only [launch, List.getElem?_append]
  split
  · rename_i h
    simp [Nat.ne_of_lt h]
  · rename_i h
    have hnone : m.children[i]? = none := List.getElem?_eq_none (Nat.le_of_not_lt h)
    by_cases hi : i = m.children.length
    · simp [hi, hnew]
    · have : i - m.children.length ≠ 0 := by omega
      simp [hnone, hi, this]

/-- An exit takes from its child what only running children have. -/
theorem child_exit (hP : ∀ c, P c → c.exited = false) (h : exit i m = some m') :
    (∃ c, m'.children[j]? = some c ∧ P c) ↔ (∃ c, m.children[j]? = some c ∧ P c) ∧ j ≠ i := by
  obtain ⟨c, hc, _, rfl⟩ := exit_some h
  have hi := (List.getElem?_eq_some_iff.mp hc).1
  have hnot : ¬P { c with exited := true } := fun hp => absurd (hP _ hp) (by simp)
  simp only [List.getElem?_set]
  by_cases hj : i = j
  · subst hj
    simp [hi, hnot]
  · simp [hj, Ne.symm hj]

/-- The update of an exit goroutine does not change what only running children have. -/
theorem child_update (hP : ∀ c, P c → c.exited = false) (h : update i m = some m') :
    (∃ c, m'.children[j]? = some c ∧ P c) ↔ ∃ c, m.children[j]? = some c ∧ P c := by
  obtain ⟨c, hc, hexited, _, rfl⟩ := update_some h
  obtain ⟨hi, he⟩ := List.getElem?_eq_some_iff.mp hc
  have hnot : ¬P c := fun hp => absurd (hP _ hp) (by simp [hexited])
  have hnot' : ¬P { c with updated := true } := fun hp => absurd (hP _ hp) (by simp [hexited])
  simp only [List.getElem?_set]
  by_cases hj : i = j
  · subst hj
    simp [hi, he, hnot, hnot']
  · simp [hj]

end Children

/-! ## Live children -/

/-- Child `i` is alive with an un-cancelled context. -/
def LiveAt (m : Machine) (i : Nat) : Prop := ∃ c, m.children[i]? = some c ∧ c.live = true

theorem LiveAt.lt {i : Nat} (h : LiveAt m i) : i < m.children.length := by
  obtain ⟨c, hc, _⟩ := h
  exact (List.getElem?_eq_some_iff.mp hc).1

theorem not_liveAt_init (port : Int) (i : Nat) : ¬LiveAt (init port) i := by
  rintro ⟨c, hc, _⟩
  simp [init] at hc

/-- `NoneLive` by index. -/
theorem noneLive_iff : NoneLive m ↔ ∀ i, ¬LiveAt m i := by
  constructor
  · rintro h i ⟨c, hc, hl⟩
    rw [h c (List.mem_of_getElem? hc)] at hl
    cases hl
  · intro h c hc
    obtain ⟨i, hi⟩ := List.mem_iff_getElem?.mp hc
    cases hl : c.live with
    | false => rfl
    | true => exact absurd ⟨c, hi, hl⟩ (h i)

/-- `stopLocked` ends the owner of `s.cancel`. -/
theorem liveAt_stopLocked {i : Nat} : LiveAt (stopLocked m) i ↔ LiveAt m i ∧ m.srv.cancel ≠ some i := by
  unfold LiveAt
  rw [stopLocked_children]
  cases hc : m.srv.cancel with
  | none => simp
  | some j =>
    simp only [Option.elim_some, List.getElem?_modify, ne_eq, Option.some.injEq]
    by_cases hj : j = i
    · simp [hj]
    · simp [hj]

/-- A launch adds its own child. -/
theorem liveAt_launch {p : String} {i : Nat} : LiveAt (launch p m) i ↔ LiveAt m i ∨ i = m.children.length :=
  child_launch rfl

theorem exited_of_live (c : Child) (h : c.live = true) : c.exited = false := by
  cases he : c.exited with
  | false => rfl
  | true => simp [Child.live, he] at h

/-- An exit ends its own child. -/
theorem liveAt_exit {i j : Nat} (h : exit i m = some m') : LiveAt m' j ↔ LiveAt m j ∧ j ≠ i :=
  child_exit exited_of_live h

/-- The update of an exit goroutine ends no child. -/
theorem liveAt_update {i j : Nat} (h : update i m = some m') : LiveAt m' j ↔ LiveAt m j :=
  child_update exited_of_live h

/-- Neither the exit of a child nor the update of its goroutine brings one to life. -/
theorem noneLive_exit {i : Nat} (h : exit i m = some m') (hn : NoneLive m) : NoneLive m' := by
  rw [noneLive_iff] at hn ⊢
  exact fun j hj => hn j ((liveAt_exit h).mp hj).1

theorem noneLive_update {i : Nat} (h : update i m = some m') (hn : NoneLive m) : NoneLive m' := by
  rw [noneLive_iff] at hn ⊢
  exact fun j hj => hn j ((liveAt_update h).mp hj)

theorem exit_srv {i : Nat} (h : exit i m = some m') : m'.srv = m.srv := by
  obtain ⟨c, _, _, rfl⟩ := exit_some h
  rfl

theorem exit_length {i : Nat} (h : exit i m = some m') : m'.children.length = m.children.length := by
  obtain ⟨c, _, _, rfl⟩ := exit_some h
  simp

theorem update_srv {i : Nat} (h : update i m = some m') : m'.srv = { m.srv with isRunning := false } := by
  obtain ⟨c, _, _, _, rfl⟩ := update_some h
  rfl

theorem update_length {i : Nat} (h : update i m = some m') : m'.children.length = m.children.length := by
  obtain ⟨c, _, _, _, rfl⟩ := update_some h
  simp

end LaManchaland.Llmserver
