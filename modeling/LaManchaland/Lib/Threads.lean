import Mathlib.Data.List.Basic

/-!
# Threads by position

The threads of a pool are a list. A step moves thread `i` on to `x` and adds new threads at the end, so the list
becomes `ts.set i x ++ new` and positions are stable: what is at a position afterwards is the thread that moved, one
from before, or a new one (`getElem?_move`). A list that grows by one at its end is the case without a move
(`getElem?_snoc`).
-/

namespace Threads

variable {α : Type*} {ts new : List α} {x a : α} {i j : Nat}

/-- A thread after the step: the one that moved, another one from before, or a new one. -/
theorem getElem?_move (h : (ts.set i x ++ new)[j]? = some a) :
    (j = i ∧ a = x) ∨ (j ≠ i ∧ ts[j]? = some a) ∨ (ts.length ≤ j ∧ a ∈ new) := by
  rw [List.getElem?_append] at h
  split at h
  · rename_i hj
    rw [List.getElem?_set] at h
    by_cases hij : i = j
    · rw [if_pos hij] at h
      split at h
      · exact .inl ⟨hij.symm, (Option.some.inj h).symm⟩
      · cases h
    · rw [if_neg hij] at h
      exact .inr (.inl ⟨Ne.symm hij, h⟩)
  · rename_i hj
    exact .inr (.inr ⟨by simpa using hj, List.mem_of_getElem? h⟩)

/-- The other threads stay where they are. -/
theorem getElem?_move_ne (h : ts[j]? = some a) (hj : j ≠ i) : (ts.set i x ++ new)[j]? = some a := by
  have hlt := (List.getElem?_eq_some_iff.mp h).1
  rw [List.getElem?_append_left (by simpa using hlt), List.getElem?_set_ne (Ne.symm hj)]
  exact h

theorem getElem?_move_self (h : ts[i]? = some a) : (ts.set i x ++ new)[i]? = some x := by
  have hlt := (List.getElem?_eq_some_iff.mp h).1
  rw [List.getElem?_append_left (by simpa using hlt), List.getElem?_set_self hlt]

theorem getElem?_set_self (h : ts[i]? = some a) : (ts.set i x)[i]? = some x := by
  rw [List.getElem?_set_self (List.getElem?_eq_some_iff.mp h).1]

theorem getElem?_set_ne (h : ts[j]? = some a) (hj : j ≠ i) : (ts.set i x)[j]? = some a := by
  rwa [List.getElem?_set_ne (Ne.symm hj)]

/-- A thread after an arrival: one from before, or the one that has arrived. -/
theorem getElem?_snoc (h : (ts ++ [x])[j]? = some a) : ts[j]? = some a ∨ (j = ts.length ∧ a = x) := by
  rw [List.getElem?_append] at h
  split at h
  · exact .inl h
  · rename_i hj
    have hlt := (List.getElem?_eq_some_iff.mp h).1
    rw [List.length_singleton] at hlt
    exact .inr ⟨by omega, List.mem_singleton.mp (List.mem_of_getElem? h)⟩

end Threads
