import Mathlib.Data.List.Induction
import Mathlib.Tactic.IntervalCases
import Mathlib.Tactic.Ring

/-!
# Numerals

The value of a numeral in base 10 and in base 16. The numeral that `Nat.repr` writes is read back
(`decValue_repr`).
-/

namespace LaManchaland.Digits

/-- The value of a decimal numeral. -/
def decValue (l : List Char) : Nat := l.foldl (fun n c => 10 * n + (c.toNat - '0'.toNat)) 0

/-- The value of a hexadecimal digit. -/
def hexDigit (c : Char) : Option Nat :=
  if c.isDigit then some (c.toNat - '0'.toNat)
  else if 'a' ≤ c ∧ c ≤ 'f' then some (c.toNat - 'a'.toNat + 10)
  else if 'A' ≤ c ∧ c ≤ 'F' then some (c.toNat - 'A'.toNat + 10)
  else none

/-- The value of a hexadecimal numeral. -/
def hexValue (l : List Char) : Nat := l.foldl (fun n c => 16 * n + (hexDigit c).getD 0) 0

/-- **A number is read back from its decimal numeral.** -/
theorem decValue_repr (n : Nat) : decValue n.repr.toList = n := by
  have hvalue := Nat.ofDigitChars_ten_toDigits (n := n)
  rwa [Nat.ofDigitChars_eq_foldl, ← Nat.toList_repr] at hvalue

/-- Digits that follow count less. -/
theorem decValue_append (l l' : List Char) : decValue (l ++ l') = decValue l * 10 ^ l'.length + decValue l' := by
  induction l' using List.reverseRecOn with
  | nil => simp [decValue]
  | append_singleton l' c ih =>
    have hstep : ∀ s : List Char, decValue (s ++ [c]) = 10 * decValue s + (c.toNat - '0'.toNat) := fun s => by
      simp [decValue]
    rw [← List.append_assoc, hstep, hstep, ih, List.length_append, List.length_singleton, pow_succ]
    ring

theorem decValue_zeros (k : Nat) : decValue (List.replicate k '0') = 0 := by
  induction k with
  | zero => rfl
  | succ k ih => rw [List.replicate_succ, ← List.singleton_append, decValue_append, ih]; simp [decValue]

/-- The value of a digit. -/
theorem digit_lt {c : Char} (h : c.isDigit = true) : c.toNat - '0'.toNat < 10 := by
  have h9 : c.toNat ≤ '9'.toNat := by
    simp only [Char.isDigit, Bool.and_eq_true, decide_eq_true_eq] at h
    exact h.2
  have : '9'.toNat = 57 := rfl
  have : '0'.toNat = 48 := rfl
  omega

/-- A numeral counts less than the power of its length. -/
theorem decValue_lt {l : List Char} (h : ∀ c ∈ l, c.isDigit = true) : decValue l < 10 ^ l.length := by
  induction l using List.reverseRecOn with
  | nil => simp [decValue]
  | append_singleton l c ih =>
    have hl := ih fun d hd => h d (List.mem_append_left _ hd)
    have hc := digit_lt (h c (List.mem_append_right _ List.mem_cons_self))
    have hone : decValue [c] = c.toNat - '0'.toNat := by simp [decValue]
    rw [decValue_append, List.length_append, List.length_singleton, hone, pow_one, pow_succ]
    omega

/-- A numeral without a leading zero counts at least the power of its length less one. -/
theorem le_decValue {l : List Char} (h : ∀ c ∈ l, c.isDigit = true) (hne : l ≠ []) (hzero : l.head? ≠ some '0') :
    10 ^ (l.length - 1) ≤ decValue l := by
  cases l with
  | nil => exact absurd rfl hne
  | cons c l =>
    have hc := h c List.mem_cons_self
    have hpos : 1 ≤ decValue [c] := by
      have hne0 : c ≠ '0' := fun h0 => hzero (h0 ▸ rfl)
      have hone : decValue [c] = c.toNat - '0'.toNat := by simp [decValue]
      simp only [Char.isDigit, Bool.and_eq_true, decide_eq_true_eq] at hc
      have h0 : c.toNat ≠ '0'.toNat := fun h0 => hne0 (Char.toNat_inj.mp h0)
      have hle : '0'.toNat ≤ c.toNat := hc.1
      omega
    rw [← List.singleton_append, decValue_append, List.length_append, List.length_singleton, Nat.add_sub_cancel_left]
    calc 10 ^ l.length = 1 * 10 ^ l.length := (Nat.one_mul _).symm
      _ ≤ decValue [c] * 10 ^ l.length := Nat.mul_le_mul_right _ hpos
      _ ≤ _ := Nat.le_add_right _ _

/-- The numeral of a positive number does not begin with a zero. -/
theorem head_repr (n : Nat) (h : n ≠ 0) : n.repr.toList.head? ≠ some '0' := by
  rw [Nat.toList_repr]
  induction n using Nat.strong_induction_on with
  | _ n ih =>
    by_cases hlt : n < 10
    · rw [Nat.toDigits_of_lt_base hlt]
      interval_cases n <;> simp_all
    · have hdiv : n / 10 ≠ 0 := by omega
      obtain ⟨c, l, hl⟩ := List.exists_cons_of_ne_nil (Nat.toDigits_ne_nil (n := n / 10) (b := 10))
      have hhead := ih (n / 10) (by omega) hdiv
      rw [hl] at hhead
      rw [Nat.toDigits_of_base_le (by omega) (by omega), hl]
      exact hhead

/-- A decimal numeral has digits only. -/
theorem isDigit_of_mem_repr {n : Nat} {c : Char} (h : c ∈ n.repr.toList) : c.isDigit = true := by
  rw [Nat.toList_repr] at h
  exact Nat.isDigit_of_mem_toDigits (by omega) (by omega) h

theorem repr_ne_nil (n : Nat) : n.repr.toList ≠ [] := by
  rw [Nat.toList_repr]
  exact Nat.toDigits_ne_nil

end LaManchaland.Digits
