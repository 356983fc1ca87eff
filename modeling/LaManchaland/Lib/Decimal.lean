import LaManchaland.Lib.Float64
import LaManchaland.Lib.JsonText
import Mathlib.Data.Nat.Prime.Basic

/-!
# The shortest decimal of a double

`shortest` is the decimal with the fewest digits that reads back as a given double; of two of them it is the closer one,
and the even one when both are as close. `text` writes it as JSON, in the layout of ECMAScript: with an exponent when
the number is below `1e-6`, or `1e21` and above.

The decimal reads back as the double (`nearest_shortest`), and the text denotes the decimal (`readMagnitude_text`).
-/

namespace LaManchaland.Decimal

open Digits
open Float64 (IsDouble nearest)
open JsonText

/-! ## The search -/

/-- The decimal with the given exponent that reads back as `v`: one next to `v` does, if any does. -/
def candidate (v : ℚ≥0) (exp : ℤ) : Option Dec :=
  let below : Dec := ⟨⌊(v : ℚ) / 10 ^ exp⌋.toNat, exp⟩
  let above : Dec := ⟨⌊(v : ℚ) / 10 ^ exp⌋.toNat + 1, exp⟩
  let closer : Bool := (v : ℚ) - below.value < above.value - v ∨
    ((v : ℚ) - below.value = above.value - v ∧ below.digits % 2 = 0)
  if nearest below.value = some v ∧ (nearest above.value ≠ some v ∨ closer) then some below
  else if nearest above.value = some v then some above
  else none

/-- The whole value of a double in decimal. -/
def exact (v : ℚ≥0) : Dec := ⟨v.num * 5 ^ Nat.log 2 v.den, -(Nat.log 2 v.den : ℤ)⟩

/-- Trailing zeros are moved into the exponent. -/
def strip : ℕ → Dec → Dec
  | 0, d => d
  | fuel + 1, d => if d.digits % 10 = 0 then strip fuel ⟨d.digits / 10, d.exp + 1⟩ else d

/-- The shortest decimal: 17 digits are tried, and the whole value is always one. -/
def shortest (v : ℚ≥0) : Dec :=
  let d := ((List.range 17).findSome? fun (i : ℕ) => candidate v (Int.log 10 (v : ℚ) - i)).getD (exact v)
  strip d.digits d

theorem value_strip : ∀ (fuel : ℕ) (d : Dec), (strip fuel d).value = d.value
  | 0, _ => rfl
  | fuel + 1, d => by
    rw [strip]
    split
    · rename_i hzero
      have hdigits : (d.digits : ℚ≥0) = (d.digits / 10 : ℕ) * 10 := by
        exact_mod_cast (Nat.div_mul_cancel (Nat.dvd_of_mod_eq_zero hzero)).symm
      rw [value_strip fuel, Dec.value, Dec.value, hdigits, zpow_add_one₀ (by norm_num)]
      ring
    · rfl

theorem nearest_candidate {v : ℚ≥0} {exp : ℤ} {d : Dec} (h : candidate v exp = some d) : nearest d.value = some v := by
  simp only [candidate] at h
  split at h
  · rename_i hbelow
    cases h
    exact hbelow.1
  · split at h
    · rename_i habove
      cases h
      exact habove
    · cases h

theorem exp_candidate {v : ℚ≥0} {exp : ℤ} {d : Dec} (h : candidate v exp = some d) : d.exp = exp := by
  simp only [candidate] at h
  split at h
  · cases h
    rfl
  · split at h
    · cases h
      rfl
    · cases h

/-- The denominator of a double is a power of two. -/
theorem exists_den {v : ℚ} (h : IsDouble v) : ∃ k : ℕ, v.den = 2 ^ k := by
  obtain ⟨-, m, e, -, -, rfl⟩ := h
  cases e with
  | ofNat k =>
    refine ⟨0, ?_⟩
    have hint : (m : ℚ) * 2 ^ (Int.ofNat k) = ((m * 2 ^ k : ℤ) : ℚ) := by
      push_cast
      rfl
    rw [hint, pow_zero]
    exact Rat.den_intCast _
  | negSucc k =>
    have hdiv : (m : ℚ) * 2 ^ (Int.negSucc k) = (m : ℚ) / ((2 ^ (k + 1) : ℤ) : ℚ) := by
      rw [zpow_negSucc, div_eq_mul_inv]
      push_cast
      rfl
    have hdvd : (((m : ℚ) / ((2 ^ (k + 1) : ℤ) : ℚ)).den : ℤ) ∣ 2 ^ (k + 1) := by
      rw [← Rat.divInt_eq_div]
      exact Rat.den_dvd m (2 ^ (k + 1))
    have hdvd' : ((m : ℚ) / ((2 ^ (k + 1) : ℤ) : ℚ)).den ∣ 2 ^ (k + 1) := by exact_mod_cast hdvd
    obtain ⟨j, -, hj⟩ := (Nat.dvd_prime_pow Nat.prime_two).mp hdvd'
    exact ⟨j, hdiv ▸ hj⟩

theorem value_exact {v : ℚ≥0} (h : IsDouble v) : (exact v).value = v := by
  obtain ⟨k, hk⟩ := exists_den h
  have hk' : v.den = 2 ^ k := hk
  have hlog : Nat.log 2 v.den = k := by rw [hk', Nat.log_pow (by norm_num)]
  have hten : (10 : ℚ≥0) ^ k = 2 ^ k * 5 ^ k := by rw [← mul_pow]; norm_num
  have hself : v = v.num / 2 ^ k := by
    conv_lhs => rw [← NNRat.num_div_den v, hk']
    push_cast
    rfl
  rw [Dec.value, exact, hlog, zpow_neg, zpow_natCast, hten]
  push_cast
  conv_rhs => rw [hself]
  field_simp

/-- **The shortest decimal reads back as the double.** -/
theorem nearest_shortest {v : ℚ≥0} (h : IsDouble v) : nearest (shortest v).value = some v := by
  simp only [shortest, value_strip]
  cases hfind : (List.range 17).findSome? fun (i : ℕ) => candidate v (Int.log 10 (v : ℚ) - i) with
  | none =>
    rw [Option.getD_none, value_exact h]
    exact Float64.nearest_of_isDouble h
  | some d =>
    obtain ⟨i, -, hi⟩ := List.exists_of_findSome?_eq_some hfind
    exact nearest_candidate hi

/-- A number on the grid is its own candidate. -/
theorem value_candidate_of_grid {n m : ℕ} (hdouble : nearest (n : ℚ≥0) = some (n : ℚ≥0)) {d : Dec}
    (h : candidate n (-(m : ℤ)) = some d) : d.value = n := by
  have hgrid : (((n : ℚ≥0) : ℚ) / 10 ^ (-(m : ℤ))) = ((n * 10 ^ m : ℕ) : ℚ) := by
    rw [zpow_neg, zpow_natCast, div_inv_eq_mul]
    push_cast
    rfl
  have hbelow : Dec.value ⟨n * 10 ^ m, -(m : ℤ)⟩ = n := by
    rw [Dec.value, zpow_neg, zpow_natCast]
    push_cast
    field_simp
  have habove : ((Dec.value ⟨n * 10 ^ m + 1, -(m : ℤ)⟩ : ℚ≥0) : ℚ) = n + (10 ^ m)⁻¹ := by
    rw [Dec.value, zpow_neg, zpow_natCast]
    push_cast
    field_simp
  have hfloor : ⌊((n : ℚ≥0) : ℚ) / 10 ^ (-(m : ℤ))⌋.toNat = n * 10 ^ m := by
    rw [hgrid, Int.floor_natCast, Int.toNat_natCast]
  have hcloser : ((n : ℚ≥0) : ℚ) - ((n : ℚ≥0) : ℚ) < (n + (10 ^ m)⁻¹ : ℚ) - ((n : ℚ≥0) : ℚ) := by
    have hpos : (0 : ℚ) < (10 ^ m)⁻¹ := by positivity
    rw [NNRat.cast_natCast]
    linarith
  simp only [candidate, hfloor, hbelow, habove] at h
  rw [if_pos ⟨hdouble, .inr (decide_eq_true (.inl hcloser))⟩] at h
  cases h
  exact hbelow

/-- A candidate for an integer of 53 bits is the integer. -/
theorem value_candidate {n : ℕ} (hn : n < 2 ^ 53) {exp : ℤ} {d : Dec} (h : candidate n exp = some d) :
    d.value = n := by
  rcases le_or_gt exp 0 with hexp | hexp
  · obtain ⟨m, rfl⟩ : ∃ m : ℕ, exp = -(m : ℤ) := ⟨(-exp).toNat, by omega⟩
    exact value_candidate_of_grid (Float64.nearest_natCast hn.le) h
  · -- The candidate is an integer too, and only the integer itself reads back.
    obtain ⟨m, rfl⟩ : ∃ m : ℕ, exp = m := ⟨exp.toNat, by omega⟩
    have hint : d.value = ((d.digits * 10 ^ m : ℕ) : ℚ≥0) := by
      rw [Dec.value, exp_candidate h, zpow_natCast]
      push_cast
      rfl
    have hreads := nearest_candidate h
    rw [hint] at hreads ⊢
    rw [Float64.eq_of_nearest_natCast hn hreads]

/-- **An integer of 53 bits is its own shortest decimal.** -/
theorem value_shortest {n : ℕ} (hn : n < 2 ^ 53) : (shortest n).value = n := by
  simp only [shortest, value_strip]
  cases hfind : (List.range 17).findSome? fun (i : ℕ) => candidate n (Int.log 10 ((n : ℚ≥0) : ℚ) - i) with
  | none => exact value_exact (Float64.nearest_isDouble (Float64.nearest_natCast hn.le))
  | some d =>
    obtain ⟨i, -, hi⟩ := List.exists_of_findSome?_eq_some hfind
    exact value_candidate hn hi

section Integers

/-- A double that is an integer is its own candidate at the exponent 0. -/
theorem candidate_zero {n : ℕ} (h : nearest (n : ℚ≥0) = some (n : ℚ≥0)) : (candidate n 0).isSome = true := by
  have hfloor : ⌊((n : ℚ≥0) : ℚ) / 10 ^ (0 : ℤ)⌋.toNat = n := by
    rw [zpow_zero, div_one, NNRat.cast_natCast, Int.floor_natCast, Int.toNat_natCast]
  have hbelow : Dec.value ⟨n, 0⟩ = n := by
    rw [Dec.value, zpow_zero, mul_one]
  have habove : ((Dec.value ⟨n + 1, 0⟩ : ℚ≥0) : ℚ) = n + 1 := by
    rw [Dec.value, zpow_zero, mul_one]
    push_cast
    rfl
  have hcloser : ((n : ℚ≥0) : ℚ) - ((n : ℚ≥0) : ℚ) < (n + 1 : ℚ) - ((n : ℚ≥0) : ℚ) := by
    rw [NNRat.cast_natCast]
    linarith
  simp only [candidate, hfloor, hbelow, habove]
  rw [if_pos ⟨h, .inr (decide_eq_true (.inl hcloser))⟩]
  rfl

theorem exp_strip : ∀ (fuel : ℕ) (d : Dec), d.exp ≤ (strip fuel d).exp
  | 0, d => le_refl d.exp
  | fuel + 1, d => by
    rw [strip]
    split
    · exact le_trans (Int.le_add_one (le_refl d.exp)) (exp_strip fuel ⟨d.digits / 10, d.exp + 1⟩)
    · exact le_refl d.exp

/-- **The shortest decimal of an integer has no fraction.** -/
theorem exp_shortest {n : ℕ} (h : nearest (n : ℚ≥0) = some (n : ℚ≥0)) : 0 ≤ (shortest n).exp := by
  refine le_trans ?_ (exp_strip _ _)
  cases hfind : (List.range 17).findSome? fun (i : ℕ) => candidate n (Int.log 10 ((n : ℚ≥0) : ℚ) - i) with
  | none =>
    have hden : (n : ℚ≥0).den = 1 := NNRat.den_natCast n
    rw [Option.getD_none, exact, hden]
    exact le_refl 0
  | some d =>
    -- An exponent below 0 would come after the exponent 0, at which the integer itself is a candidate.
    obtain ⟨before, i, later, hrange, hi, hnone⟩ := List.findSome?_eq_some_iff.mp hfind
    rw [Option.getD_some, exp_candidate hi]
    by_contra hneg
    have hlog : 0 ≤ Int.log 10 ((n : ℚ≥0) : ℚ) := by
      rw [NNRat.cast_natCast, Int.log_natCast]
      exact Int.natCast_nonneg _
    obtain ⟨k, hk⟩ : ∃ k : ℕ, Int.log 10 ((n : ℚ≥0) : ℚ) = k := ⟨_, (Int.toNat_of_nonneg hlog).symm⟩
    have hlen : i = before.length := by
      have hget : (List.range 17)[before.length]? = some i := by rw [hrange]; simp
      obtain ⟨hlt, hget⟩ := List.getElem?_eq_some_iff.mp hget
      rw [← hget, List.getElem_range]
    have hmem : k ∈ before := by
      have hlt : k < before.length := by omega
      have hget : (List.range 17)[k]? = before[k]? := by rw [hrange, List.getElem?_append_left hlt]
      have hlt17 : k < 17 := by
        have := congrArg List.length hrange
        rw [List.length_range, List.length_append, List.length_cons] at this
        omega
      rw [List.getElem?_range hlt17] at hget
      exact List.mem_of_getElem? hget.symm
    have hsome := candidate_zero h
    have hzero := hnone k hmem
    rw [hk, sub_self] at hzero
    rw [hzero] at hsome
    cases hsome

end Integers

/-! ## The text -/

/-- The layout of digits: `point` of them are before the decimal point. -/
def layout (ds : List Char) (exp : ℤ) : List Char :=
  let point : ℤ := ds.length + exp
  if -6 < point ∧ point ≤ 21 then
    if point ≤ 0 then '0' :: '.' :: (List.replicate (-point).toNat '0' ++ ds)
    else if ds.length ≤ point then ds ++ List.replicate exp.toNat '0'
    else ds.take point.toNat ++ '.' :: ds.drop point.toNat
  else
    ds.take 1 ++ (if ds.length = 1 then [] else '.' :: ds.drop 1) ++
      'e' :: (if point - 1 < 0 then '-' else '+') :: (point - 1).natAbs.repr.toList

/-- A double that is not negative, as JSON. -/
def text (v : ℚ≥0) : List Char :=
  let d := shortest v
  if d.digits = 0 then ['0'] else layout d.digits.repr.toList d.exp

section Read

variable {ds : List Char}

/-- Digits end at the first other character. -/
theorem span_digits {tail : List Char} (hdigits : ∀ c ∈ ds, c.isDigit = true)
    (htail : ∀ c ∈ tail.head?, c.isDigit = false) :
    (ds ++ tail).takeWhile Char.isDigit = ds ∧ (ds ++ tail).dropWhile Char.isDigit = tail := by
  rw [List.takeWhile_append_of_pos hdigits, List.dropWhile_append_of_pos hdigits]
  cases tail with
  | nil => exact ⟨List.append_nil ds, rfl⟩
  | cons c tail =>
    rw [List.takeWhile_cons, List.dropWhile_cons, htail c rfl]
    exact ⟨List.append_nil ds, rfl⟩

/-- A number is its integer part and what the rest of it says. -/
theorem readMagnitude_append {tail : List Char} (hdigits : ∀ c ∈ ds, c.isDigit = true) (hne : ds ≠ [])
    (hzero : ds.head? ≠ some '0' ∨ ds.length = 1) (htail : ∀ c ∈ tail.head?, c.isDigit = false) :
    readMagnitude (ds ++ tail) = (readFraction tail).map fun (frac, e) =>
      (decValue (ds ++ frac) : ℚ≥0) * 10 ^ (e - frac.length) := by
  have hfirst : ¬(ds = [] ∨ (ds.head? = some '0' ∧ ds.length ≠ 1)) := by
    rintro (h | ⟨h, h'⟩)
    · exact hne h
    · exact hzero.elim (absurd h) (absurd · h')
  obtain ⟨htake, hdrop⟩ := span_digits hdigits htail
  simp only [readMagnitude, htake, hdrop, if_neg hfirst, Dec.value]

/-- A number with a fraction. -/
theorem readMagnitude_point {frac tail : List Char} (hdigits : ∀ c ∈ ds, c.isDigit = true) (hne : ds ≠ [])
    (hzero : ds.head? ≠ some '0' ∨ ds.length = 1) (hfrac : ∀ c ∈ frac, c.isDigit = true) (hfracne : frac ≠ [])
    (htail : ∀ c ∈ tail.head?, c.isDigit = false) :
    readMagnitude (ds ++ '.' :: (frac ++ tail)) = (readExponent tail).map fun e : ℤ =>
      (decValue (ds ++ frac) : ℚ≥0) * 10 ^ (e - frac.length) := by
  have hpoint : ∀ c ∈ ('.' :: (frac ++ tail)).head?, c.isDigit = false := by
    rintro c ⟨⟩
    rfl
  obtain ⟨htake, hdrop⟩ := span_digits hfrac htail
  rw [readMagnitude_append hdigits hne hzero hpoint, readFraction, htake, hdrop, if_neg hfracne, Option.map_map]
  rfl

/-- A number without a fraction. -/
theorem readMagnitude_whole {tail : List Char} (hdigits : ∀ c ∈ ds, c.isDigit = true) (hne : ds ≠ [])
    (hzero : ds.head? ≠ some '0' ∨ ds.length = 1) (htail : ∀ c ∈ tail.head?, c.isDigit = false ∧ c ≠ '.') :
    readMagnitude (ds ++ tail) = (readExponent tail).map fun e : ℤ => (decValue ds : ℚ≥0) * 10 ^ e := by
  have hfraction : readFraction tail = (readExponent tail).map ([], ·) := by
    cases tail with
    | nil => rfl
    | cons c tail =>
      rw [readFraction]
      exact fun l hl => (htail c rfl).2 (List.cons.inj hl).1
  rw [readMagnitude_append hdigits hne hzero fun c hc => (htail c hc).1, hfraction, Option.map_map]
  refine congrArg (Option.map · _) (funext fun e => ?_)
  simp only [Function.comp_apply, List.append_nil, List.length_nil, Nat.cast_zero, sub_zero]

/-- The exponent of a layout is read back. -/
theorem readExponent_eq (n : ℤ) :
    readExponent ('e' :: (if n < 0 then '-' else '+') :: n.natAbs.repr.toList) = some n := by
  have hdigits : readDigits n.natAbs.repr.toList = some n.natAbs := by
    have hall : n.natAbs.repr.toList.all Char.isDigit = true :=
      List.all_eq_true.mpr fun c hc => isDigit_of_mem_repr hc
    rw [readDigits, if_pos ⟨repr_ne_nil _, hall⟩, decValue_repr]
  by_cases h : n < 0
  · have hread : readExponent ('e' :: '-' :: n.natAbs.repr.toList) =
        (readDigits n.natAbs.repr.toList).map fun k : ℕ => -(k : ℤ) := rfl
    rw [if_pos h, hread, hdigits, Option.map_some]
    exact congrArg some (by omega)
  · have hread : readExponent ('e' :: '+' :: n.natAbs.repr.toList) =
        (readDigits n.natAbs.repr.toList).map fun k : ℕ => (k : ℤ) := rfl
    rw [if_neg h, hread, hdigits, Option.map_some]
    exact congrArg some (by omega)

theorem isDigit_zeros (k : ℕ) : ∀ c ∈ List.replicate k '0', c.isDigit = true := by
  intro c hc
  rw [List.eq_of_mem_replicate hc]
  rfl

/-- All digits are in the fraction, after zeros. -/
theorem readMagnitude_below (hdigits : ∀ c ∈ ds, c.isDigit = true) (hne : ds ≠ []) {exp : ℤ}
    (hsmall : (ds.length + exp : ℤ) ≤ 0) :
    readMagnitude ('0' :: '.' :: (List.replicate (-(ds.length + exp : ℤ)).toNat '0' ++ ds)) =
      some ((decValue ds : ℚ≥0) * 10 ^ exp) := by
  have hfrac : ∀ c ∈ List.replicate (-(ds.length + exp : ℤ)).toNat '0' ++ ds, c.isDigit = true := fun c hc =>
    (List.mem_append.mp hc).elim (isDigit_zeros _ c) (hdigits c)
  have hread := @readMagnitude_point ['0'] _ [] (List.forall_mem_singleton.mpr rfl) (List.cons_ne_nil _ _) (.inr rfl)
    hfrac (by simp [hne]) (by simp)
  have hlen : (0 : ℤ) - ((-(ds.length + exp : ℤ)).toNat + ds.length : ℕ) = exp := by omega
  have hnil : readExponent [] = some 0 := rfl
  rw [List.append_nil] at hread
  refine hread.trans ?_
  rw [hnil, Option.map_some, List.length_append, List.length_replicate, hlen, ← List.append_assoc, decValue_append,
    ← List.replicate_one, ← List.replicate_add, decValue_zeros]
  simp

/-- An integer, with zeros at its end. -/
theorem readMagnitude_zeros (hdigits : ∀ c ∈ ds, c.isDigit = true) (hne : ds ≠ []) (hzero : ds.head? ≠ some '0')
    (k : ℕ) : readMagnitude (ds ++ List.replicate k '0') = some ((decValue ds : ℚ≥0) * 10 ^ (k : ℤ)) := by
  have hint : ∀ c ∈ ds ++ List.replicate k '0', c.isDigit = true := fun c hc =>
    (List.mem_append.mp hc).elim (hdigits c) (isDigit_zeros _ c)
  have hhead : (ds ++ List.replicate k '0').head? ≠ some '0' := by
    rw [List.head?_append_of_ne_nil _ hne]
    exact hzero
  have hread := @readMagnitude_whole _ [] hint (by simp [hne]) (.inl hhead) (by simp)
  have hnil : readExponent [] = some 0 := rfl
  rw [List.append_nil] at hread
  rw [hread, hnil, Option.map_some, decValue_append, decValue_zeros, List.length_replicate, zpow_zero, mul_one,
    add_zero, zpow_natCast]
  push_cast
  rfl

/-- The point is between two digits. -/
theorem readMagnitude_between (hdigits : ∀ c ∈ ds, c.isDigit = true) (hzero : ds.head? ≠ some '0') {k : ℕ}
    (hpos : k ≠ 0) (hlt : k < ds.length) :
    readMagnitude (ds.take k ++ '.' :: ds.drop k) = some ((decValue ds : ℚ≥0) * 10 ^ ((k : ℤ) - ds.length)) := by
  have hhead : (ds.take k).head? ≠ some '0' := by rwa [List.head?_take, if_neg hpos]
  have htake : ds.take k ≠ [] := fun h =>
    (List.take_eq_nil_iff.mp h).elim hpos fun h' => by rw [h', List.length_nil] at hlt; omega
  have hread := @readMagnitude_point _ _ [] (fun c hc => hdigits c (List.mem_of_mem_take hc)) htake (.inl hhead)
    (fun c hc => hdigits c (List.mem_of_mem_drop hc)) (by simpa using hlt) (by simp)
  have hlen : (0 : ℤ) - (ds.length - k : ℕ) = k - ds.length := by omega
  have hnil : readExponent [] = some 0 := rfl
  rw [List.append_nil] at hread
  rw [hread, hnil, Option.map_some, List.take_append_drop, List.length_drop, hlen]

/-- One digit is before the point, and an exponent follows. -/
theorem readMagnitude_scientific (hdigits : ∀ c ∈ ds, c.isDigit = true) (hne : ds ≠ []) (e : ℤ) :
    readMagnitude (ds.take 1 ++ (if ds.length = 1 then [] else '.' :: ds.drop 1) ++
        'e' :: (if e < 0 then '-' else '+') :: e.natAbs.repr.toList) =
      some ((decValue ds : ℚ≥0) * 10 ^ (e - (ds.length - 1))) := by
  have hlength : 0 < ds.length := List.length_pos_iff.mpr hne
  have hexpdigit : ∀ l : List Char, ∀ c ∈ ('e' :: l).head?, c.isDigit = false ∧ c ≠ '.' := by
    rintro l c ⟨⟩
    decide
  have htake : ds.take 1 ≠ [] := fun h => (List.take_eq_nil_iff.mp h).elim one_ne_zero hne
  have htakedigits : ∀ c ∈ ds.take 1, c.isDigit = true := fun c hc => hdigits c (List.mem_of_mem_take hc)
  by_cases hlen : ds.length = 1
  · rw [if_pos hlen, List.append_nil, readMagnitude_whole htakedigits htake (.inr (by simp [hlen])) (hexpdigit _),
      readExponent_eq, Option.map_some, List.take_of_length_le hlen.le, hlen]
    exact congrArg some (congrArg _ (congrArg _ (by omega)))
  · have hfirst : (ds.take 1).length = 1 := by
      rw [List.length_take]
      omega
    have hrest : ds.drop 1 ≠ [] := by
      rw [ne_eq, List.drop_eq_nil_iff]
      omega
    rw [if_neg hlen, List.append_assoc, List.cons_append,
      readMagnitude_point htakedigits htake (.inr hfirst) (fun c hc => hdigits c (List.mem_of_mem_drop hc)) hrest
        (fun c hc => (hexpdigit _ c hc).1), readExponent_eq,
      Option.map_some, List.take_append_drop, List.length_drop]
    exact congrArg some (congrArg _ (congrArg _ (by omega)))

/-- **A layout denotes its digits.** -/
theorem readMagnitude_layout (hdigits : ∀ c ∈ ds, c.isDigit = true) (hne : ds ≠ []) (hzero : ds.head? ≠ some '0')
    (exp : ℤ) : readMagnitude (layout ds exp) = some ((decValue ds : ℚ≥0) * 10 ^ exp) := by
  unfold layout
  by_cases hplain : -6 < (ds.length + exp : ℤ) ∧ (ds.length + exp : ℤ) ≤ 21
  · simp only [if_pos hplain]
    by_cases hsmall : (ds.length + exp : ℤ) ≤ 0
    · rw [if_pos hsmall, readMagnitude_below hdigits hne hsmall]
    · rw [if_neg hsmall]
      by_cases hwhole : (ds.length : ℤ) ≤ ds.length + exp
      · have hexp : (exp.toNat : ℤ) = exp := by omega
        rw [if_pos hwhole, readMagnitude_zeros hdigits hne hzero, hexp]
      · have hexp : ((ds.length + exp : ℤ).toNat : ℤ) - ds.length = exp := by omega
        rw [if_neg hwhole, readMagnitude_between hdigits hzero (by omega) (by omega), hexp]
  · have hexp : (ds.length + exp - 1 : ℤ) - (ds.length - 1) = exp := by omega
    simp only [if_neg hplain]
    rw [readMagnitude_scientific hdigits hne, hexp]

/-- **The text denotes the shortest decimal.** -/
theorem readMagnitude_text (v : ℚ≥0) : readMagnitude (text v) = some (shortest v).value := by
  rw [text]
  by_cases hzero : (shortest v).digits = 0
  · have hread : readMagnitude ['0'] = some (((0 : ℕ) : ℚ≥0) * 10 ^ (0 - (([] : List Char).length : ℤ))) := rfl
    rw [if_pos hzero, Dec.value, hzero, hread]
    simp
  · rw [if_neg hzero, readMagnitude_layout (fun c hc => isDigit_of_mem_repr hc) (repr_ne_nil _) (head_repr _ hzero),
      decValue_repr]
    rfl

/-- A text begins with a digit. -/
theorem text_eq_cons (v : ℚ≥0) : ∃ c l, text v = c :: l ∧ c.isDigit = true := by
  have hread := readMagnitude_text v
  cases htext : text v with
  | nil =>
    rw [htext] at hread
    cases hread
  | cons c l =>
    rw [htext] at hread
    exact ⟨c, l, rfl, isDigit_of_readMagnitude hread⟩

theorem isNumeric_of_isDigit {c : Char} (h : c.isDigit = true) : isNumeric c = true := by
  simp [isNumeric, h]

/-- The characters of a layout are those of numbers. -/
theorem isNumeric_layout (hdigits : ∀ c ∈ ds, isNumeric c = true) (exp : ℤ) :
    ∀ c ∈ layout ds exp, isNumeric c = true := by
  have hpoint : isNumeric '.' = true ∧ isNumeric 'e' = true ∧ isNumeric '-' = true ∧ isNumeric '+' = true ∧
    isNumeric '0' = true := by decide
  have hzeros : ∀ k : ℕ, ∀ c ∈ List.replicate k '0', isNumeric c = true := fun k c hc =>
    isNumeric_of_isDigit (isDigit_zeros k c hc)
  have htake : ∀ k, ∀ c ∈ ds.take k, isNumeric c = true := fun k c hc => hdigits c (List.mem_of_mem_take hc)
  have hdrop : ∀ k, ∀ c ∈ ds.drop k, isNumeric c = true := fun k c hc => hdigits c (List.mem_of_mem_drop hc)
  intro c hc
  unfold layout at hc
  simp only at hc
  split at hc
  · split at hc
    · simp only [List.mem_cons, List.mem_append] at hc
      rcases hc with rfl | rfl | hc | hc
      exacts [hpoint.2.2.2.2, hpoint.1, hzeros _ c hc, hdigits c hc]
    · split at hc
      · exact (List.mem_append.mp hc).elim (hdigits c) (hzeros _ c)
      · simp only [List.mem_cons, List.mem_append] at hc
        rcases hc with hc | rfl | hc
        exacts [htake _ c hc, hpoint.1, hdrop _ c hc]
  · simp only [List.mem_cons, List.mem_append] at hc
    rcases hc with (hc | hc) | rfl | rfl | hc
    · exact htake _ c hc
    · split at hc
      · cases hc
      · exact (List.mem_cons.mp hc).elim (fun h => h ▸ hpoint.1) (hdrop _ c)
    · exact hpoint.2.1
    · split
      exacts [hpoint.2.2.1, hpoint.2.2.2.1]
    · exact isNumeric_of_isDigit (isDigit_of_mem_repr hc)

/-- The characters of a text are those of numbers. -/
theorem isNumeric_text (v : ℚ≥0) : ∀ c ∈ text v, isNumeric c = true := by
  intro c hc
  rw [text] at hc
  split at hc
  · exact List.mem_singleton.mp hc ▸ isNumeric_of_isDigit rfl
  · exact isNumeric_layout (fun _ hd => isNumeric_of_isDigit (isDigit_of_mem_repr hd)) _ c hc

/-- A magnitude is a number, and the negative one after a sign. -/
theorem readNumber_of_magnitude {l : List Char} {q : ℚ≥0} (h : readMagnitude l = some q) :
    readNumber l = some ⟨false, q⟩ ∧ readNumber ('-' :: l) = some ⟨true, q⟩ := by
  refine ⟨?_, ?_⟩
  · rw [readNumber, h]
    · rfl
    · rintro l' rfl
      cases h
  · rw [readNumber, h]
    rfl

/-- A number whose magnitude is a double, as JSON. -/
def numberText (n : Number) : List Char := if n.neg then '-' :: text n.mag else text n.mag

/-- The number that the text of a number denotes. -/
def written (n : Number) : Number := { n with mag := (shortest n.mag).value }

/-- **The text of a number denotes its shortest decimal**, with the characters of numbers. -/
theorem readNumber_numberText (n : Number) :
    readNumber (numberText n) = some (written n) ∧ ∀ c ∈ numberText n, isNumeric c = true := by
  obtain ⟨neg, mag⟩ := n
  have hread := readNumber_of_magnitude (readMagnitude_text mag)
  cases neg with
  | false => exact ⟨hread.1, isNumeric_text mag⟩
  | true => exact ⟨hread.2, List.forall_mem_cons.mpr ⟨rfl, isNumeric_text mag⟩⟩

/-- **The text of a number is read as the shortest decimal.** -/
theorem spells_numberText (n : Number) : Spells (numberText n) (.num (written n)) :=
  spells_number (readNumber_numberText n).1 (readNumber_numberText n).2

end Read

/-! ## The text of an integer -/

section Whole
variable {v : ℚ≥0}

/-- The numeral of an integer: digits only. -/
def Whole (l : List Char) (q : ℚ≥0) : Prop :=
  l ≠ [] ∧ (∀ c ∈ l, c.isDigit = true) ∧ (decValue l : ℚ≥0) = q

/-- The size of a decimal. -/
theorem value_bounds {ds : List Char} (hdigits : ∀ c ∈ ds, c.isDigit = true) (hne : ds ≠ [])
    (hzero : ds.head? ≠ some '0') {k : ℕ} :
    (ds.length + k ≤ 21 → (decValue ds : ℚ≥0) * 10 ^ k < 10 ^ 21) ∧
      (21 < ds.length + k → (10 : ℚ≥0) ^ 21 ≤ decValue ds * 10 ^ k) := by
  have hlen : 0 < ds.length := List.length_pos_iff.mpr hne
  constructor
  · intro h
    have hlt : decValue ds * 10 ^ k < 10 ^ 21 := by
      calc decValue ds * 10 ^ k < 10 ^ ds.length * 10 ^ k :=
            Nat.mul_lt_mul_of_pos_right (decValue_lt hdigits) (Nat.pow_pos (by decide))
        _ = 10 ^ (ds.length + k) := (pow_add _ _ _).symm
        _ ≤ 10 ^ 21 := Nat.pow_le_pow_right (by decide) h
    exact_mod_cast hlt
  · intro h
    have hle : 10 ^ 21 ≤ decValue ds * 10 ^ k := by
      calc 10 ^ 21 ≤ 10 ^ (ds.length - 1 + k) := Nat.pow_le_pow_right (by decide) (by omega)
        _ = 10 ^ (ds.length - 1) * 10 ^ k := pow_add _ _ _
        _ ≤ decValue ds * 10 ^ k := Nat.mul_le_mul_right _ (le_decValue hdigits hne hzero)
    exact_mod_cast hle

/-- **The text of a decimal without a fraction**: its digits, when it is below `1e21`. -/
theorem whole_text (hexp : 0 ≤ (shortest v).exp) (hlt : (shortest v).value < 10 ^ 21) :
    Whole (text v) (shortest v).value := by
  rw [text]
  by_cases hdigits : (shortest v).digits = 0
  · rw [if_pos hdigits, Dec.value, hdigits]
    exact ⟨List.cons_ne_nil _ _, List.forall_mem_singleton.mpr rfl, by simp [decValue]⟩
  · obtain ⟨k, hk⟩ : ∃ k : ℕ, (shortest v).exp = k := ⟨_, (Int.toNat_of_nonneg hexp).symm⟩
    have hall : ∀ c ∈ (shortest v).digits.repr.toList, c.isDigit = true := fun c hc => isDigit_of_mem_repr hc
    have hbounds := value_bounds hall (repr_ne_nil _) (head_repr _ hdigits) (k := k)
    rw [Dec.value, hk, zpow_natCast] at hlt ⊢
    rw [decValue_repr] at hbounds
    have hpoint : (shortest v).digits.repr.toList.length + k ≤ 21 := by
      by_contra hmore
      exact absurd hlt (not_lt.mpr (hbounds.2 (by omega)))
    have hpos : 0 < (shortest v).digits.repr.toList.length := List.length_pos_iff.mpr (repr_ne_nil _)
    rw [if_neg hdigits, layout]
    rw [if_pos (by omega), if_neg (by omega), if_pos (by omega), Int.toNat_natCast]
    refine ⟨?_, ?_, ?_⟩
    · exact List.append_ne_nil_of_left_ne_nil (repr_ne_nil _) _
    · exact fun c hc => (List.mem_append.mp hc).elim (hall c) (isDigit_zeros k c)
    · rw [decValue_append, decValue_repr, decValue_zeros, List.length_replicate]
      push_cast
      rw [add_zero]

/-- From `1e21` on it is a digit, and then a point or an exponent. -/
theorem scientific_text (hexp : 0 ≤ (shortest v).exp) (hle : 10 ^ 21 ≤ (shortest v).value) :
    ∃ d c l, text v = d :: c :: l ∧ d.isDigit = true ∧ (c = '.' ∨ c = 'e') := by
  have hdigits : (shortest v).digits ≠ 0 := by
    intro hzero
    rw [Dec.value, hzero, Nat.cast_zero, zero_mul] at hle
    exact absurd hle (by decide)
  obtain ⟨k, hk⟩ : ∃ k : ℕ, (shortest v).exp = k := ⟨_, (Int.toNat_of_nonneg hexp).symm⟩
  have hall : ∀ c ∈ (shortest v).digits.repr.toList, c.isDigit = true := fun c hc => isDigit_of_mem_repr hc
  have hbounds := value_bounds hall (repr_ne_nil _) (head_repr _ hdigits) (k := k)
  rw [Dec.value, hk, zpow_natCast] at hle
  rw [decValue_repr] at hbounds
  have hpoint : 21 < (shortest v).digits.repr.toList.length + k := by
    by_contra hless
    exact absurd (hbounds.1 (by omega)) (not_lt.mpr hle)
  rw [text, if_neg hdigits, layout]
  rw [if_neg (by omega)]
  cases hds : (shortest v).digits.repr.toList with
  | nil => exact absurd hds (repr_ne_nil _)
  | cons d ds =>
    have hd : d.isDigit = true := hall d (hds ▸ List.mem_cons_self)
    cases ds with
    | nil => exact ⟨d, 'e', _, rfl, hd, .inr rfl⟩
    | cons c ds =>
      have hlen : (d :: c :: ds).length ≠ 1 := by simp
      rw [if_neg hlen]
      exact ⟨d, '.', _, rfl, hd, .inl rfl⟩

/-- **The shortest decimal is below a double exactly when the number is.** -/
theorem value_shortest_lt {v d : ℚ≥0} (hv : IsDouble v) (hd : IsDouble d) (hself : d ≤ (shortest d).value) :
    (shortest v).value < d ↔ v < d := by
  have hround := Float64.nearest_eq_some.mp (nearest_shortest hv)
  constructor
  · intro h
    have hle : v ≤ d := by exact_mod_cast Float64.round_le (NNRat.coe_nonneg _) hd (by exact_mod_cast h.le) hround
    refine lt_of_le_of_ne hle ?_
    rintro rfl
    exact absurd h (not_lt.mpr hself)
  · intro h
    by_contra hge
    have hpos : (0 : ℚ) < d := by exact_mod_cast lt_of_le_of_lt v.2 h
    have hle : d ≤ v := by exact_mod_cast Float64.round_ge hd hpos (by exact_mod_cast not_lt.mp hge) hround
    exact absurd h (not_lt.mpr hle)

/-- The same at a double whose own decimal is above it. -/
theorem value_shortest_le {v d : ℚ≥0} (hv : IsDouble v) (hd : IsDouble d) (hself : d < (shortest d).value) :
    (shortest v).value ≤ d ↔ v < d := by
  constructor
  · intro h
    have hround := Float64.nearest_eq_some.mp (nearest_shortest hv)
    have hle : v ≤ d := by exact_mod_cast Float64.round_le (NNRat.coe_nonneg _) hd (by exact_mod_cast h) hround
    refine lt_of_le_of_ne hle ?_
    rintro rfl
    exact absurd h (not_le.mpr hself)
  · exact fun h => ((value_shortest_lt hv hd hself.le).mpr h).le

end Whole

end LaManchaland.Decimal
