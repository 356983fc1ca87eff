import Mathlib.Logic.Function.Iterate

/-!
# Loops with a measure

A `Loop` is the statement `for cond { body }` over a state, with a size that every round makes smaller.

* `Loop.run` is the state in which the loop ends (`run_of_cond`, `run_of_not_cond`).
* `Loop.EndsAfter s k t`: the loop entered in `s` goes through `k` rounds and leaves in `t`. Every loop ends, in
  `Loop.run`, after at most as many rounds as the size says (`endsAfter_run`).
* `EndsAfter.invariant` is the induction over the rounds, `run_invariant` what it says of the end.
-/

namespace Loops

/-- The statement `for cond { body }`, with what makes it end. -/
structure Loop (σ : Type*) where
  cond : σ → Bool
  body : σ → σ
  size : σ → ℕ
  descends : ∀ s, cond s = true → size (body s) < size s

variable {σ : Type*}

/-- The state in which the loop ends. -/
def Loop.run (L : Loop σ) (s : σ) : σ :=
  if _h : L.cond s = true then L.run (L.body s) else s
termination_by L.size s
decreasing_by exact L.descends s _h

/-- The loop goes through `k` rounds, from `s` to `t`. -/
structure Loop.EndsAfter (L : Loop σ) (s : σ) (k : ℕ) (t : σ) : Prop where
  state : L.body^[k] s = t
  enters : ∀ i < k, L.cond (L.body^[i] s) = true
  leaves : L.cond t = false

variable {L : Loop σ} {s t : σ} {k : ℕ}

theorem run_of_cond (h : L.cond s = true) : L.run s = L.run (L.body s) := by
  rw [Loop.run, dif_pos h]

theorem run_of_not_cond (h : L.cond s = false) : L.run s = s := by
  rw [Loop.run, dif_neg (by simp [h])]

/-- A loop whose condition fails goes through no round. -/
theorem endsAfter_zero (h : L.cond s = false) : L.EndsAfter s 0 s :=
  ⟨rfl, fun _ hi => absurd hi (Nat.not_lt_zero _), h⟩

/-- A round before the others. -/
theorem EndsAfter.cons (h : L.cond s = true) (hk : L.EndsAfter (L.body s) k t) : L.EndsAfter s (k + 1) t where
  state := hk.state
  enters
    | 0, _ => h
    | i + 1, hi => hk.enters i (Nat.lt_of_succ_lt_succ hi)
  leaves := hk.leaves

/-- **Every loop ends.** -/
theorem endsAfter_run (L : Loop σ) (s : σ) : ∃ k ≤ L.size s, L.EndsAfter s k (L.run s) := by
  induction hn : L.size s using Nat.strongRecOn generalizing s with
  | ind n ih =>
    cases h : L.cond s with
    | false =>
      rw [run_of_not_cond h]
      exact ⟨0, Nat.zero_le _, endsAfter_zero h⟩
    | true =>
      have hlt : L.size (L.body s) < n := hn ▸ L.descends s h
      obtain ⟨k, hk, hends⟩ := ih _ hlt (L.body s) rfl
      rw [run_of_cond h]
      exact ⟨k + 1, Nat.succ_le_of_lt (Nat.lt_of_le_of_lt hk hlt), EndsAfter.cons h hends⟩

/-- **The invariant rule**: what every round keeps holds before and after each of them. -/
theorem EndsAfter.invariant {I : σ → Prop} (hbody : ∀ u, I u → L.cond u = true → I (L.body u))
    (hends : L.EndsAfter s k t) (hs : I s) : ∀ i ≤ k, I (L.body^[i] s)
  | 0, _ => hs
  | i + 1, hi => by
    rw [Function.iterate_succ_apply']
    exact hbody _ (EndsAfter.invariant hbody hends hs i (Nat.le_of_succ_le hi)) (hends.enters i hi)

/-- At the end the invariant holds and the condition fails. -/
theorem run_invariant {I : σ → Prop} (hbody : ∀ u, I u → L.cond u = true → I (L.body u)) (hs : I s) :
    I (L.run s) ∧ L.cond (L.run s) = false := by
  obtain ⟨k, -, hends⟩ := endsAfter_run L s
  have hlast : I (L.body^[k] s) := EndsAfter.invariant hbody hends hs k (Nat.le_refl k)
  rw [hends.state] at hlast
  exact ⟨hlast, hends.leaves⟩

end Loops
