import LaManchaland.Lib.Float64
import LaManchaland.Lib.Loops
import LaManchaland.Worker

/-!
# Byte counts as text

`formatBytes` of the monitor divides by 1024 as often as it can, in the loop `scaleLoop`, and indexes the string of
units by the number of rounds; an index out of range is a panic (`none`).

* `Scale.Inv` is the invariant of the loop, `Scale.Inv.round` what a round keeps: `div` does not wrap.
* `formatBytes_unit`: every count of 1024 or more gets its unit.
* `scale_exp`: the unit is the logarithm of the count.
* `formatBytes_text`: the number in front of the unit is between 1 and 1024; the rounding of the count to a double can
  reach 1024.
-/

namespace LaManchaland.Monitor

open Loops
open Worker (fixed1)

/-! ## The loop -/

/-- `const unit`. -/
def unit : UInt64 := 1024

theorem toNat_unit : unit.toNat = 1024 := rfl

theorem unit_le_iff {b : UInt64} : unit ≤ b ↔ 1024 ≤ b.toNat := by
  rw [UInt64.le_iff_toNat_le, toNat_unit]

/-- The variables of the loop. -/
structure Scale where
  n : UInt64
  div : UInt64
  exp : Nat
  deriving DecidableEq

/-- `for n := b / unit; n >= unit; n /= unit { div *= unit; exp++ }`. -/
def scaleLoop : Loop Scale where
  cond s := decide (unit ≤ s.n)
  body s := ⟨s.n / unit, s.div * unit, s.exp + 1⟩
  size s := s.n.toNat
  descends s h := by
    have hn : 1024 ≤ s.n.toNat := unit_le_iff.mp (of_decide_eq_true h)
    show (s.n / unit).toNat < s.n.toNat
    rw [UInt64.toNat_div, toNat_unit]
    omega

def scaleStart (b : UInt64) : Scale := ⟨b / unit, unit, 0⟩

/-- The variables after the loop. -/
def scale (b : UInt64) : Scale := scaleLoop.run (scaleStart b)

/-! ## The text -/

def units : List Char := "KMGTPE".toList

theorem isSome_round (b : UInt64) : (Float64.round b.toNat).isSome = true := by
  have hlt : (b.toNat : ℚ) ≤ 2 ^ 64 := by exact_mod_cast b.toNat_lt.le
  obtain ⟨v, hv⟩ := Float64.exists_round (q := b.toNat) (k := (64 : ℕ)) (by decide) (by decide)
    (by rwa [Nat.abs_cast, zpow_natCast])
  rw [hv, Option.isSome_some]

/-- `float64(b)`. -/
def float64 (b : UInt64) : ℚ := (Float64.round b.toNat).get (isSome_round b)

/-- `%.1f` of the quotient of two doubles, neither of them negative. -/
def quotient1 (x y : ℚ) : String :=
  if y = 0 then if x = 0 then "NaN" else "+Inf"
  else
    match Float64.round (x / y) with
    | some q => fixed1 q
    | none => "+Inf"

/-- `none` is a panic. -/
def formatBytes (b : UInt64) : Option String :=
  if b < unit then some (toString b.toNat ++ " B")
  else
    units[(scale b).exp]?.map fun c =>
      quotient1 (float64 b) (float64 (scale b).div) ++ " " ++ String.singleton c ++ "B"

/-! ## The invariant -/

/-- The invariant of the loop. -/
structure Scale.Inv (b : UInt64) (s : Scale) : Prop where
  power : s.div.toNat = 1024 ^ (s.exp + 1)
  quotient : s.n.toNat = b.toNat / s.div.toNat
  le : s.div.toNat ≤ b.toNat

theorem Scale.Inv.start {b : UInt64} (h : unit ≤ b) : Scale.Inv b (scaleStart b) where
  power := toNat_unit.trans (pow_one 1024).symm
  quotient := UInt64.toNat_div b unit
  le := UInt64.le_iff_toNat_le.mp h

section Round

variable {b : UInt64} {s : Scale}

/-- While the condition holds, the next `div` is not above the count. -/
theorem Scale.Inv.next_le (h : s.Inv b) (hcond : scaleLoop.cond s = true) : s.div.toNat * 1024 ≤ b.toNat := by
  have hn : 1024 ≤ b.toNat / s.div.toNat := h.quotient ▸ unit_le_iff.mp (of_decide_eq_true hcond)
  have hpos : 0 < s.div.toNat := h.power ▸ Nat.pow_pos (by decide)
  rw [Nat.mul_comm]
  exact (Nat.le_div_iff_mul_le hpos).mp hn

theorem Scale.Inv.next_lt (h : s.Inv b) (hcond : scaleLoop.cond s = true) : s.div.toNat * 1024 < 2 ^ 64 :=
  lt_of_le_of_lt (h.next_le hcond) b.toNat_lt

/-- **A round keeps the invariant**: `div` does not wrap. -/
theorem Scale.Inv.round (h : s.Inv b) (hcond : scaleLoop.cond s = true) : (scaleLoop.body s).Inv b := by
  have hdiv : (s.div * unit).toNat = s.div.toNat * 1024 := by
    rw [UInt64.toNat_mul, toNat_unit]
    exact Nat.mod_eq_of_lt (h.next_lt hcond)
  refine ⟨?_, ?_, ?_⟩
  · show (s.div * unit).toNat = 1024 ^ (s.exp + 1 + 1)
    rw [hdiv, h.power, ← pow_succ]
  · show (s.n / unit).toNat = b.toNat / (s.div * unit).toNat
    rw [hdiv, UInt64.toNat_div, toNat_unit, h.quotient, Nat.div_div_eq_div_mul]
  · show (s.div * unit).toNat ≤ b.toNat
    exact hdiv.trans_le (h.next_le hcond)

end Round

/-! ## The unit -/

/-- The unit that `s` stands for is the right one for `b`. -/
structure PicksUnit (b : UInt64) (s : Scale) : Prop where
  power : s.div.toNat = 1024 ^ (s.exp + 1)
  index : s.exp < units.length
  le : s.div.toNat ≤ b.toNat
  lt : b.toNat < 1024 * s.div.toNat
  one_le : 1 ≤ b / s.div
  le_1023 : b / s.div ≤ 1023

/-- Seven rounds would wrap. -/
theorem Scale.Inv.index {b : UInt64} {s : Scale} (h : s.Inv b) : s.exp < units.length := by
  have hpow : 1024 ^ (s.exp + 1) < 2 ^ 64 := h.power ▸ s.div.toNat_lt
  by_contra hge
  have hle : 1024 ^ 7 ≤ 1024 ^ (s.exp + 1) := Nat.pow_le_pow_right (by decide) (Nat.succ_le_succ (not_lt.mp hge))
  exact absurd (hle.trans_lt hpow) (by decide)

/-- At the end of the loop the unit is the right one. -/
theorem Scale.Inv.picksUnit {b : UInt64} {s : Scale} (h : s.Inv b) (hcond : scaleLoop.cond s = false) :
    PicksUnit b s := by
  have hpos : 0 < s.div.toNat := h.power ▸ Nat.pow_pos (by decide)
  have hn : b.toNat / s.div.toNat < 1024 := by
    have hnot : ¬unit ≤ s.n := of_decide_eq_false hcond
    rw [unit_le_iff, h.quotient] at hnot
    exact not_le.mp hnot
  refine ⟨h.power, h.index, h.le, (Nat.div_lt_iff_lt_mul hpos).mp hn, ?_, ?_⟩
  · rw [UInt64.le_iff_toNat_le, UInt64.toNat_div]
    exact (Nat.one_le_div_iff hpos).mpr h.le
  · rw [UInt64.le_iff_toNat_le, UInt64.toNat_div]
    exact Nat.le_of_lt_succ hn

theorem picksUnit_scale {b : UInt64} (h : unit ≤ b) : PicksUnit b (scale b) := by
  obtain ⟨hinv, hcond⟩ := run_invariant (L := scaleLoop) (fun _ hs => hs.round) (Scale.Inv.start h)
  exact hinv.picksUnit hcond

/-- **The unit is the logarithm of the count.** -/
theorem scale_exp {b : UInt64} (h : unit ≤ b) : (scale b).exp + 1 = Nat.log 1024 b.toNat := by
  have hunit := picksUnit_scale h
  refine (Nat.log_eq_of_pow_le_of_lt_pow ?_ ?_).symm
  · exact hunit.power ▸ hunit.le
  · rw [pow_succ, Nat.mul_comm, ← hunit.power]
    exact hunit.lt

/-! ## The result -/

/-- The text of a count that is not below the unit. -/
theorem formatBytes_of_le {b : UInt64} (h : unit ≤ b) : ∃ c, units[(scale b).exp]? = some c ∧
    formatBytes b = some (quotient1 (float64 b) (float64 (scale b).div) ++ " " ++ String.singleton c ++ "B") := by
  have hindex := List.getElem?_eq_getElem (picksUnit_scale h).index
  refine ⟨_, hindex, ?_⟩
  rw [formatBytes, if_neg (UInt64.not_lt.mpr h), hindex]
  rfl

/-- **`formatBytes` picks the right unit**: for every count of 1024 or more the loop ends, no round wraps `div`, the
unit is the right one, and the text has its letter. -/
theorem formatBytes_unit (b : UInt64) (h : 1024 ≤ b) :
    (∃ rounds, scaleLoop.EndsAfter (scaleStart b) rounds (scale b) ∧
      ∀ i < rounds, (scaleLoop.body^[i] (scaleStart b)).div.toNat * 1024 < 2 ^ 64) ∧
    PicksUnit b (scale b) ∧ ∃ c, units[(scale b).exp]? = some c ∧
      formatBytes b = some (quotient1 (float64 b) (float64 (scale b).div) ++ " " ++ String.singleton c ++ "B") := by
  obtain ⟨rounds, -, hends⟩ := endsAfter_run scaleLoop (scaleStart b)
  refine ⟨⟨rounds, hends, fun i hi => ?_⟩, picksUnit_scale h, formatBytes_of_le h⟩
  have hinv : Scale.Inv b (scaleLoop.body^[i] (scaleStart b)) :=
    EndsAfter.invariant (fun _ hs => hs.round) hends (Scale.Inv.start h) i hi.le
  exact hinv.next_lt (hends.enters i hi)

/-- At the top of the range a sixth round would wrap `div` and leave the units. -/
theorem formatBytes_unit_max :
    (scale 18446744073709551615).exp + 1 = units.length ∧
      (scale 18446744073709551615).div.toNat * 1024 = 2 ^ 70 ∧
      PicksUnit 18446744073709551615 (scale 18446744073709551615) := by
  have hunit := (formatBytes_unit 18446744073709551615 (by decide)).2.1
  have hexp : (scale 18446744073709551615).exp + 1 = 6 :=
    (scale_exp (by decide)).trans (Nat.log_eq_of_pow_le_of_lt_pow (by decide) (by decide))
  refine ⟨hexp, ?_, hunit⟩
  rw [hunit.power, hexp]
  norm_num

/-! ## The number -/

theorem round_float64 (b : UInt64) : Float64.round b.toNat = some (float64 b) := (Option.some_get _).symm

section Number

variable {b : UInt64} {s : Scale}

theorem PicksUnit.cast_div (h : PicksUnit b s) : (s.div.toNat : ℚ) = 2 ^ (10 * (s.exp + 1)) := by
  rw [h.power, pow_mul]
  norm_num

/-- The divisor is a double. -/
theorem PicksUnit.float64_div (h : PicksUnit b s) : float64 s.div = 2 ^ (10 * (s.exp + 1)) := by
  have hexp : s.exp < 6 := h.index
  have hround := round_float64 s.div
  rw [h.cast_div, Float64.round_of_isDouble (Float64.isDouble_two_pow (by omega))] at hround
  exact (Option.some.inj hround).symm

/-- Rounding the count does not take it out of the range of its unit, but for the upper end. -/
theorem PicksUnit.le_float64 (h : PicksUnit b s) : 2 ^ (10 * (s.exp + 1)) ≤ float64 b := by
  have hle : (2 : ℚ) ^ (10 * (s.exp + 1)) ≤ b.toNat := by
    rw [← h.cast_div]
    exact_mod_cast h.le
  have hround := Float64.le_round (k := (10 * (s.exp + 1) : ℕ)) (by omega) (by rwa [zpow_natCast]) (round_float64 b)
  rwa [zpow_natCast] at hround

theorem PicksUnit.float64_le (h : PicksUnit b s) : float64 b ≤ 1024 * 2 ^ (10 * (s.exp + 1)) := by
  have hle : (b.toNat : ℚ) ≤ 2 ^ (10 * (s.exp + 1) + 10) := by
    rw [pow_add, ← h.cast_div]
    have hlt : (b.toNat : ℚ) < 1024 * s.div.toNat := by exact_mod_cast h.lt
    linarith
  have hround := Float64.abs_le_of_round (k := (10 * (s.exp + 1) + 10 : ℕ)) (by omega)
    (by rwa [Nat.abs_cast, zpow_natCast]) (round_float64 b)
  rw [zpow_natCast, pow_add] at hround
  linarith [le_abs_self (float64 b)]

/-- The quotient is exact. -/
theorem PicksUnit.quotient1_eq (h : PicksUnit b s) :
    quotient1 (float64 b) (float64 s.div) = fixed1 (float64 b / 2 ^ (10 * (s.exp + 1))) := by
  have hdouble : Float64.IsDouble (float64 b) := Float64.round_isDouble (round_float64 b)
  rw [quotient1, h.float64_div, if_neg (by positivity),
    Float64.round_of_isDouble (hdouble.div_two_pow h.le_float64)]

end Number

/-- **The text of a count**: the count as a double over the power of 1024, with one decimal, and the letter of the
power. The number is between 1 and 1024. -/
theorem formatBytes_text {b : UInt64} (h : unit ≤ b) :
    ∃ q c, formatBytes b = some (fixed1 q ++ " " ++ String.singleton c ++ "B") ∧
      q = float64 b / 1024 ^ Nat.log 1024 b.toNat ∧ 1 ≤ q ∧ q ≤ 1024 ∧
      units[Nat.log 1024 b.toNat - 1]? = some c := by
  have hunit := picksUnit_scale h
  have hpos : (0 : ℚ) < 2 ^ (10 * ((scale b).exp + 1)) := by positivity
  obtain ⟨c, hc, htext⟩ := formatBytes_of_le h
  refine ⟨_, c, htext.trans (by rw [hunit.quotient1_eq]), ?_, ?_, ?_, ?_⟩
  · rw [← scale_exp h, pow_mul]
    norm_num
  · rw [le_div_iff₀ hpos, one_mul]
    exact hunit.le_float64
  · rw [div_le_iff₀ hpos]
    exact hunit.float64_le
  · rw [← scale_exp h, Nat.add_sub_cancel]
    exact hc

example : formatBytes 1048575 = some "1024.0 KB" := by decide +kernel

end LaManchaland.Monitor
