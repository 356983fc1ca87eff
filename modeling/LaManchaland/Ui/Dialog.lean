import LaManchaland.Lib.Decimal
import LaManchaland.Ui.ModelSettings

/-!
# The dialog of the model settings

`openModelSettings` puts the settings into the number inputs of the dialog, and `saveModelSettings` reads them back. An
input keeps the text of a finite number, and anything else leaves it empty.

A number that `parseFloat` has read is read back from its text. `parseInt` stops at the point or at the exponent of the
text, which an integer has from `1e21` on. `reopen_iff`: opening the dialog and saving it changes nothing exactly when
no setting is infinite and the integers are below `1e21`; doing it twice is the same as doing it once.
-/

namespace LaManchaland.Ui.ModelSettings

open Digits (decValue)
open Decimal (text numberText shortest)
open Float64 (IsDouble)
open JsonText (Number readMagnitude readFraction readExponent readDigits)

/-! ## What the parsers return -/

/-- A finite number is a double. -/
def IsNum : Num → Prop
  | .fin v => IsDouble v
  | _ => True

/-- A finite number is an integer. -/
def IsWhole : Num → Prop
  | .fin v => IsDouble v ∧ ∃ n : ℤ, v = n
  | _ => True

section Parsed

variable {a b : Num}

theorem ofRat_of_none {q : ℚ} (h : Float64.round q = none) : Num.ofRat q = .inf (q < 0) := by
  delta Num.ofRat
  rw [h]

theorem isNum_ofRat (q : ℚ) : IsNum (.ofRat q) := by
  cases h : Float64.round q with
  | none =>
    rw [ofRat_of_none h]
    trivial
  | some v =>
    rw [Num.ofRat_of_round h]
    exact Float64.round_isDouble h

theorem isWhole_ofInt (n : ℤ) : IsWhole (.ofRat n) := by
  cases h : Float64.round n with
  | none =>
    rw [ofRat_of_none h]
    trivial
  | some v =>
    rw [Num.ofRat_of_round h]
    exact ⟨Float64.round_isDouble h, Float64.round_intCast h⟩

theorem IsWhole.isNum (h : IsWhole a) : IsNum a := by
  cases a with
  | fin v => exact h.1
  | nan => trivial
  | inf negative => trivial

theorem isNum_or (ha : IsNum a) (hb : IsNum b) : IsNum (a.or b) := by
  unfold Num.or
  split
  · exact ha
  · exact hb

theorem isWhole_or (ha : IsWhole a) (hb : IsWhole b) : IsWhole (a.or b) := by
  unfold Num.or
  split
  · exact ha
  · exact hb

/-- What a parser of integers makes of its digits. -/
theorem isWhole_digits (p : Prop) [Decidable p] (negative : Bool) (n : ℕ) :
    IsWhole (if p then .nan else .ofRat (negate negative n)) := by
  split
  · trivial
  · cases negative with
    | false => exact_mod_cast isWhole_ofInt n
    | true =>
      have hneg : negate true n = ((-n : ℤ) : ℚ) := by
        push_cast
        rfl
      rw [hneg]
      exact isWhole_ofInt _

theorem isWhole_parseInt (value : String) : IsWhole (parseInt value) := by
  unfold parseInt
  split
  split <;> exact isWhole_digits _ _ _

theorem isNum_parseFloat (value : String) : IsNum (parseFloat value) := by
  have hdigits : ∀ (p : Prop) [Decidable p] (q : ℚ), IsNum (if p then .nan else .ofRat q) := by
    intro p _ q
    split
    · trivial
    · exact isNum_ofRat q
  unfold parseFloat
  split
  split
  · trivial
  · exact hdigits _ _

theorem lit_natCast {n : ℕ} (h : n ≤ 2 ^ 53) : lit n = .fin n :=
  Num.ofRat_of_round (Float64.round_of_isDouble (Float64.isDouble_natCast h))

theorem isWhole_lit (n : ℤ) : IsWhole (lit n) := isWhole_ofInt n

theorem isDouble_abs {v : ℚ} (h : IsDouble v) : IsDouble |v| := by
  obtain ⟨hmax, m, e, hm, he, rfl⟩ := h
  refine ⟨by rwa [abs_abs], |m|, e, by rwa [abs_abs], he, ?_⟩
  rw [abs_mul, Int.cast_abs, abs_of_pos (by positivity : (0 : ℚ) < 2 ^ e)]

theorem nnabs_intCast (n : ℤ) : (n : ℚ).nnabs = (n.natAbs : ℚ≥0) := by
  apply NNRat.coe_injective
  rw [Rat.coe_nnabs, NNRat.cast_natCast, Nat.cast_natAbs, Int.cast_abs]

end Parsed

/-! ## The inputs -/

/-- A finite number as JSON and JavaScript write it. -/
def jsNumber (v : ℚ) : Number := ⟨v < 0, v.nnabs⟩

/-- The value of a number input after a number is put into it. -/
def inputValue : Num → String
  | .fin v => String.ofList (numberText (jsNumber v))
  | _ => ""

/-- The dialog as `openModelSettings` fills it. -/
def openModelSettings (s : Settings) : Fields where
  ctxSize := inputValue s.ctxSize
  nGpuLayers := inputValue s.nGpuLayers
  threads := inputValue s.threads
  nPredict := inputValue s.nPredict
  temp := inputValue s.temperature
  topP := inputValue s.topP
  topK := inputValue s.topK
  repeatPenalty := inputValue s.repeatPenalty

/-- The settings after the dialog is opened and saved. -/
def reopen (s : Settings) : Settings := saveModelSettings (openModelSettings s)

section Text

variable {v : ℚ}

theorem isSpace_of_isDigit {c : Char} (h : c.isDigit = true) : isSpace c = false := by
  simp only [Char.isDigit, Bool.and_eq_true, decide_eq_true_eq] at h
  have hlow : 48 ≤ c.toNat := h.1
  have hhigh : c.toNat ≤ 57 := h.2
  rw [isSpace, decide_eq_false_iff_not]
  simp only [List.mem_cons, List.not_mem_nil, or_false]
  omega

/-- The sign of a text, and its digits. -/
theorem sign_inputValue : sign ((inputValue (.fin v)).toList.dropWhile isSpace) = (decide (v < 0), text v.nnabs) := by
  obtain ⟨c, l, htext, hc⟩ := Decimal.text_eq_cons v.nnabs
  have hne : ∀ d : Char, d.isDigit = false → c ≠ d := fun d hd hcd => by rw [hcd, hd] at hc; cases hc
  have hspace : isSpace c = false := isSpace_of_isDigit hc
  rw [inputValue, String.toList_ofList, numberText, jsNumber]
  by_cases hneg : v < 0
  · simp only [hneg, decide_true, if_true]
    rfl
  · simp only [hneg, decide_false, Bool.false_eq_true, if_false, htext, List.dropWhile_cons, hspace]
    rw [sign]
    · exact fun s hs => hne '-' rfl (List.cons.inj hs).1
    · exact fun s hs => hne '+' rfl (List.cons.inj hs).1

/-- **Rounding a decimal of either sign.** -/
theorem ofRat_negate (hv : IsDouble v) : Num.ofRat (negate (v < 0) ((shortest v.nnabs).value : ℚ)) = .fin v := by
  have habs : IsDouble (v.nnabs : ℚ) := by
    rw [Rat.coe_nnabs]
    exact isDouble_abs hv
  have hround := Float64.nearest_eq_some.mp (Decimal.nearest_shortest habs)
  rw [Rat.coe_nnabs] at hround
  refine Num.ofRat_of_round ?_
  by_cases hneg : v < 0
  · simp only [negate, hneg, decide_true, if_true]
    rw [Float64.round_neg, hround, Option.map_some, abs_of_neg hneg, neg_neg]
  · simp only [negate, hneg, decide_false, Bool.false_eq_true, if_false]
    rw [hround, abs_of_nonneg (not_lt.mp hneg)]

/-- What `parseInt` makes of a text whose digits come to an end. -/
theorem parseInt_inputValue {ds rest : List Char} (htext : text v.nnabs = ds ++ rest) (hne : ds ≠ [])
    (hdigits : ∀ c ∈ ds, c.isDigit = true) (hrest : ∀ c ∈ rest.head?, c.isDigit = false) :
    parseInt (inputValue (.fin v)) = .ofRat (negate (v < 0) (decValue ds)) := by
  obtain ⟨htake, -⟩ := Decimal.span_digits hdigits hrest
  have hhex : ∀ s, text v.nnabs ≠ '0' :: 'x' :: s ∧ text v.nnabs ≠ '0' :: 'X' :: s := by
    intro s
    have hnumeric := Decimal.isNumeric_text v.nnabs
    constructor <;>
    · intro h
      rw [h] at hnumeric
      have := hnumeric _ (List.mem_cons_of_mem _ List.mem_cons_self)
      cases this
  rw [parseInt, sign_inputValue]
  dsimp only
  split
  · rename_i s h
    exact absurd h (hhex s).1
  · rename_i s h
    exact absurd h (hhex s).2
  · rw [htext, htake, if_neg hne]

/-- The double `1e21` is its own decimal. -/
theorem value_shortest_bound : (10 : ℚ≥0) ^ 21 ≤ (shortest (10 ^ 21)).value := by
  have hshortest : shortest (10 ^ 21) = ⟨1, 21⟩ := by decide +kernel
  rw [hshortest, JsonText.Dec.value]
  norm_num

theorem isDouble_bound : IsDouble (((10 : ℚ≥0) ^ 21 : ℚ≥0) : ℚ) := by
  refine ⟨?_, 5 ^ 21, 21, by norm_num, by norm_num, by norm_num⟩
  have hlt : (10 : ℚ) ^ 21 < 2 ^ 1024 := by
    calc (10 : ℚ) ^ 21 < 2 ^ 70 := by norm_num
      _ ≤ 2 ^ 1024 := pow_le_pow_right₀ (by norm_num) (by norm_num)
  push_cast
  rwa [abs_of_nonneg (by positivity)]

/-- An integer below `1e21` is read back. -/
theorem parseInt_small {n : ℤ} (hdouble : IsDouble (n : ℚ)) (hlt : |(n : ℚ)| < 10 ^ 21) :
    parseInt (inputValue (.fin n)) = .fin n := by
  have habs : IsDouble ((n : ℚ).nnabs : ℚ) := by
    rw [Rat.coe_nnabs]
    exact isDouble_abs hdouble
  have hexp : 0 ≤ (shortest (n : ℚ).nnabs).exp := by
    rw [nnabs_intCast] at habs ⊢
    exact Decimal.exp_shortest (Float64.nearest_of_isDouble habs)
  have hbelow : (n : ℚ).nnabs < 10 ^ 21 := by
    rw [← Rat.coe_nnabs] at hlt
    exact_mod_cast hlt
  obtain ⟨hne, hdigits, hread⟩ := Decimal.whole_text hexp
    ((Decimal.value_shortest_lt habs isDouble_bound value_shortest_bound).mpr hbelow)
  have hread' : (decValue (text (n : ℚ).nnabs) : ℚ) = ((shortest (n : ℚ).nnabs).value : ℚ) := by
    rw [← hread, NNRat.cast_natCast]
  rw [parseInt_inputValue (List.append_nil _).symm hne hdigits (by simp), hread', ofRat_negate hdouble]

/-- Of an integer from `1e21` on, the first digit is read. -/
theorem parseInt_large {n : ℤ} (hdouble : IsDouble (n : ℚ)) (hge : 10 ^ 21 ≤ |(n : ℚ)|) :
    ∃ k : ℤ, parseInt (inputValue (.fin n)) = .fin k ∧ |k| < 10 := by
  have habs : IsDouble ((n : ℚ).nnabs : ℚ) := by
    rw [Rat.coe_nnabs]
    exact isDouble_abs hdouble
  have hexp : 0 ≤ (shortest (n : ℚ).nnabs).exp := by
    rw [nnabs_intCast] at habs ⊢
    exact Decimal.exp_shortest (Float64.nearest_of_isDouble habs)
  have habove : ¬(n : ℚ).nnabs < 10 ^ 21 := by
    rw [← Rat.coe_nnabs] at hge
    exact not_lt.mpr (by exact_mod_cast hge)
  obtain ⟨d, c, l, htext, hd, hc⟩ := Decimal.scientific_text hexp
    (not_lt.mp (mt (Decimal.value_shortest_lt habs isDouble_bound value_shortest_bound).mp habove))
  have hrest : ∀ e ∈ (c :: l).head?, e.isDigit = false := by
    rintro e ⟨⟩
    rcases hc with rfl | rfl <;> rfl
  have hlt := Digits.decValue_lt (List.forall_mem_singleton.mpr hd)
  rw [List.length_singleton, pow_one] at hlt
  have hsmall : ∀ k : ℕ, k < 10 → IsDouble ((k : ℚ)) := fun k hk => Float64.isDouble_natCast (by omega)
  refine ⟨if (n : ℚ) < 0 then -(decValue [d] : ℤ) else decValue [d], ?_, ?_⟩
  · have hsplit : text (n : ℚ).nnabs = [d] ++ c :: l := htext
    rw [parseInt_inputValue hsplit (List.cons_ne_nil _ _) (List.forall_mem_singleton.mpr hd) hrest]
    refine Num.ofRat_of_round ?_
    by_cases hneg : (n : ℚ) < 0
    · simp only [negate, hneg, decide_true, if_true]
      rw [Float64.round_neg, Float64.round_of_isDouble (hsmall _ hlt), Option.map_some]
      push_cast
      rfl
    · simp only [negate, hneg, decide_false, Bool.false_eq_true, if_false]
      rw [Float64.round_of_isDouble (hsmall _ hlt)]
      rfl
  · split
    · rw [abs_neg, Nat.abs_cast]
      exact_mod_cast hlt
    · rw [Nat.abs_cast]
      exact_mod_cast hlt

/-- The digits of an exponent, up to the end. -/
theorem decValue_of_readDigits {l : List Char} {n : ℕ} (h : readDigits l = some n) :
    decValue (l.takeWhile Char.isDigit) = n := by
  obtain ⟨⟨-, hdigits⟩, hn⟩ := Option.ite_none_right_eq_some.mp h
  have hnil : ∀ c ∈ ([] : List Char).head?, c.isDigit = false := by simp
  have htake := (Decimal.span_digits (List.all_eq_true.mp hdigits) hnil).1
  rw [List.append_nil] at htake
  rw [htake, Option.some.inj hn]

theorem exponent_cons {c : Char} (hc : c = 'e' ∨ c = 'E') (l : List Char) : exponent (c :: l) =
    if (sign l).1 then -(decValue ((sign l).2.takeWhile Char.isDigit) : ℤ)
    else decValue ((sign l).2.takeWhile Char.isDigit) := by
  rcases hc with rfl | rfl <;> rfl

/-- The exponent of a number is read alike. -/
theorem exponent_of_readExponent {l : List Char} {e : ℤ} (h : readExponent l = some e) : exponent l = e := by
  cases l with
  | nil => exact Option.some.inj h
  | cons c l =>
    obtain ⟨hc, h⟩ := Option.ite_none_right_eq_some.mp h
    rw [exponent_cons hc]
    split at h
    · obtain ⟨n, hn, rfl⟩ := Option.map_eq_some_iff.mp h
      exact congrArg Nat.cast (decValue_of_readDigits hn)
    · obtain ⟨n, hn, rfl⟩ := Option.map_eq_some_iff.mp h
      exact congrArg (fun k : ℕ => -(k : ℤ)) (decValue_of_readDigits hn)
    · rename_i hplus hminus
      obtain ⟨n, hn, rfl⟩ := Option.map_eq_some_iff.mp h
      have hsign : sign l = (false, l) := by
        rw [sign]
        · exact fun s hs => hminus s hs
        · exact fun s hs => hplus s hs
      rw [hsign]
      exact congrArg Nat.cast (decValue_of_readDigits hn)

/-- **A magnitude is read by `parseFloat`**, after its sign. -/
theorem parseFloat_of_readMagnitude {value : String} {negative : Bool} {l : List Char} {q : ℚ≥0}
    (hsign : sign (value.toList.dropWhile isSpace) = (negative, l)) (h : readMagnitude l = some q) :
    parseFloat value = .ofRat (negate negative q) := by
  have hfirst : ¬"Infinity".toList <+: l := by
    rintro ⟨rest, rfl⟩
    cases h
  obtain ⟨hint, h⟩ := Option.ite_none_left_eq_some.mp h
  obtain ⟨⟨frac, e⟩, hfrac, rfl⟩ := Option.map_eq_some_iff.mp h
  have hdigits : l.takeWhile Char.isDigit ≠ [] := fun hnil => hint (.inl hnil)
  have hrest : (fraction (l.dropWhile Char.isDigit)).1 = frac ∧
      exponent (fraction (l.dropWhile Char.isDigit)).2 = e := by
    generalize l.dropWhile Char.isDigit = rest at hfrac ⊢
    unfold readFraction at hfrac
    split at hfrac
    · rename_i s
      obtain ⟨-, hfrac⟩ := Option.ite_none_left_eq_some.mp hfrac
      obtain ⟨e', he', heq⟩ := Option.map_eq_some_iff.mp hfrac
      cases heq
      exact ⟨rfl, exponent_of_readExponent he'⟩
    · rename_i hpoint
      obtain ⟨e', he', heq⟩ := Option.map_eq_some_iff.mp hfrac
      cases heq
      have hfraction : fraction rest = ([], rest) := by
        rw [fraction]
        exact fun s hs => hpoint s hs
      rw [hfraction]
      exact ⟨rfl, exponent_of_readExponent he'⟩
  rw [parseFloat, hsign]
  dsimp only
  rw [if_neg hfirst, if_neg fun h => hdigits h.1, hrest.1, hrest.2, JsonText.Dec.value]
  push_cast
  rfl

theorem parseFloat_inputValue (hv : IsDouble v) : parseFloat (inputValue (.fin v)) = .fin v := by
  rw [parseFloat_of_readMagnitude sign_inputValue (Decimal.readMagnitude_text _), ofRat_negate hv]

end Text

/-! ## Opening and saving -/

/-- A number that `parseInt` reads back: NaN, or an integer below `1e21`. -/
def Kept : Num → Prop
  | .nan => True
  | .inf _ => False
  | .fin v => |v| < 10 ^ 21

/-- The settings that `parseInt` reads, and those that `parseFloat` reads. -/
def integers (s : Settings) : List Num := [s.ctxSize, s.nGpuLayers, s.threads, s.nPredict, s.topK]

def decimals (s : Settings) : List Num := [s.temperature, s.topP, s.repeatPenalty]

section Reopen

variable {a x : Num} {d : ℕ}

theorem parseInt_of_kept (ha : IsWhole a) (h : Kept a) : parseInt (inputValue a) = a := by
  cases a with
  | nan => rfl
  | inf negative => exact h.elim
  | fin v =>
    obtain ⟨hdouble, n, rfl⟩ := ha
    exact parseInt_small hdouble h

/-- What is read from the input is read back from then on. -/
theorem kept_parseInt (ha : IsWhole a) : Kept (parseInt (inputValue a)) := by
  cases a with
  | nan => exact trivial
  | inf negative => exact trivial
  | fin v =>
    obtain ⟨hdouble, n, rfl⟩ := ha
    rcases lt_or_ge |(n : ℚ)| (10 ^ 21) with hlt | hge
    · rw [parseInt_small hdouble hlt]
      exact hlt
    · obtain ⟨k, hk, hsmall⟩ := parseInt_large hdouble hge
      rw [hk]
      have hbound : |k| < 10 ^ 21 := hsmall.trans (by norm_num)
      show |(k : ℚ)| < 10 ^ 21
      exact_mod_cast hbound

/-- The defaults are integers that are read back. -/
theorem kept_lit (hd : d < 2 ^ 53) : IsWhole (lit d) ∧ Kept (lit d) := by
  refine ⟨isWhole_lit d, ?_⟩
  rw [lit_natCast hd.le]
  have hbound : d < 10 ^ 21 := hd.trans (by norm_num)
  show |(d : ℚ)| < 10 ^ 21
  rw [Nat.abs_cast]
  exact_mod_cast hbound

theorem kept_defaults : (IsWhole (lit 4096) ∧ Kept (lit 4096)) ∧ (IsWhole (lit 0) ∧ Kept (lit 0)) ∧
    (IsWhole (lit 512) ∧ Kept (lit 512)) ∧ IsWhole (lit 40) ∧ Kept (lit 40) := by
  refine ⟨?_, ?_, ?_, ?_⟩
  · exact_mod_cast kept_lit (d := 4096) (by decide)
  · exact_mod_cast kept_lit (d := 0) (by decide)
  · exact_mod_cast kept_lit (d := 512) (by decide)
  · exact_mod_cast kept_lit (d := 40) (by decide)

theorem kept_or {b : Num} (ha : Kept a) (hb : Kept b) : Kept (a.or b) := by
  unfold Num.or
  split
  · exact ha
  · exact hb

/-- A setting that goes through `||` is its own second choice. -/
theorem or_or (x b : Num) : (x.or b).or b = x.or b := by
  by_cases h : x.truthy = true
  · simp only [Num.or, if_pos h]
  · simp only [Num.or, if_neg h, ite_self]

/-- An integer setting that goes through `||`. -/
theorem reopen_or_iff {b : Num} (hx : IsWhole x) (hb : IsWhole b ∧ Kept b) :
    (parseInt (inputValue (x.or b))).or b = x.or b ↔ Kept (x.or b) := by
  have hwhole : IsWhole (x.or b) := isWhole_or hx hb.1
  constructor
  · intro h
    rw [← h]
    exact kept_or (kept_parseInt hwhole) hb.2
  · intro h
    rw [parseInt_of_kept hwhole h, or_or]

/-- An integer setting that goes through `??`. -/
theorem reopen_integer_iff (ha : IsWhole a) : parseInt (inputValue a) = a ↔ Kept a := by
  constructor
  · intro h
    rw [← h]
    exact kept_parseInt ha
  · exact parseInt_of_kept ha

theorem parseFloat_of_isNum (ha : IsNum a) : parseFloat (inputValue a) = a ∨
    ((∃ negative, a = .inf negative) ∧ parseFloat (inputValue a) = .nan) := by
  cases a with
  | nan => exact .inl rfl
  | inf negative => exact .inr ⟨⟨negative, rfl⟩, rfl⟩
  | fin v => exact .inl (parseFloat_inputValue ha)

/-- A setting that `parseFloat` reads. -/
theorem reopen_decimal_iff (ha : IsNum a) : parseFloat (inputValue a) = a ↔ ∀ negative, a ≠ .inf negative := by
  constructor
  · rintro h negative rfl
    cases h
  · intro h
    rcases parseFloat_of_isNum ha with h' | ⟨⟨negative, rfl⟩, -⟩
    · exact h'
    · exact absurd rfl (h negative)

theorem not_inf_parseFloat (ha : IsNum a) : ∀ negative, parseFloat (inputValue a) ≠ .inf negative := by
  intro negative h
  rcases parseFloat_of_isNum ha with h' | ⟨-, h'⟩
  · rw [h'] at h
    subst h
    cases h'
  · rw [h'] at h
    cases h

end Reopen

/-- **When opening and saving the dialog changes nothing**, for all settings that were saved before: when no setting is
infinite and the integers are below `1e21`. -/
theorem reopen_iff (f : Fields) : reopen (saveModelSettings f) = saveModelSettings f ↔
    (∀ a ∈ integers (saveModelSettings f), Kept a) ∧
      ∀ a ∈ decimals (saveModelSettings f), ∀ negative, a ≠ .inf negative := by
  obtain ⟨h4096, h0, h512, h40⟩ := kept_defaults
  have hctx := reopen_or_iff (isWhole_parseInt f.ctxSize) h4096
  have hgpu := reopen_integer_iff (isWhole_parseInt f.nGpuLayers)
  have hthreads := reopen_or_iff (isWhole_parseInt f.threads) h0
  have hpredict := reopen_or_iff (isWhole_parseInt f.nPredict) h512
  have htopK := reopen_or_iff (isWhole_parseInt f.topK) h40
  have htemp := reopen_decimal_iff (isNum_parseFloat f.temp)
  have htopP := reopen_decimal_iff (isNum_parseFloat f.topP)
  have hrepeat := reopen_decimal_iff (isNum_parseFloat f.repeatPenalty)
  rw [integers, decimals, List.forall_mem_cons, List.forall_mem_cons, List.forall_mem_cons, List.forall_mem_cons,
    List.forall_mem_singleton, List.forall_mem_cons, List.forall_mem_cons, List.forall_mem_singleton]
  simp only [reopen, saveModelSettings, openModelSettings, coalesce, Option.getD_some, Settings.mk.injEq]
  rw [hctx, hgpu, hthreads, hpredict, htemp, htopP, htopK, hrepeat]
  constructor
  · rintro ⟨h1, h2, h3, h4, h5, h6, h7, h8⟩
    exact ⟨⟨h1, h2, h3, h4, h7⟩, h5, h6, h8⟩
  · rintro ⟨⟨h1, h2, h3, h4, h7⟩, h5, h6, h8⟩
    exact ⟨h1, h2, h3, h4, h5, h6, h7, h8⟩

/-- **A second time it never does**, whatever was typed. -/
theorem reopen_reopen (f : Fields) : reopen (reopen (saveModelSettings f)) = reopen (saveModelSettings f) := by
  refine (reopen_iff (openModelSettings (saveModelSettings f))).mpr ⟨?_, ?_⟩
  · obtain ⟨h4096, h0, h512, h40⟩ := kept_defaults
    have hctx := isWhole_or (isWhole_parseInt f.ctxSize) h4096.1
    have hthreads := isWhole_or (isWhole_parseInt f.threads) h0.1
    have hpredict := isWhole_or (isWhole_parseInt f.nPredict) h512.1
    have htopK := isWhole_or (isWhole_parseInt f.topK) h40.1
    rw [integers, List.forall_mem_cons, List.forall_mem_cons, List.forall_mem_cons, List.forall_mem_cons,
      List.forall_mem_singleton]
    simp only [saveModelSettings, openModelSettings, coalesce, Option.getD_some]
    exact ⟨kept_or (kept_parseInt hctx) h4096.2, kept_parseInt (isWhole_parseInt f.nGpuLayers),
      kept_or (kept_parseInt hthreads) h0.2, kept_or (kept_parseInt hpredict) h512.2,
      kept_or (kept_parseInt htopK) h40.2⟩
  · rw [decimals, List.forall_mem_cons, List.forall_mem_cons, List.forall_mem_singleton]
    simp only [saveModelSettings, openModelSettings, coalesce, Option.getD_some]
    exact ⟨not_inf_parseFloat (isNum_parseFloat f.temp), not_inf_parseFloat (isNum_parseFloat f.topP),
      not_inf_parseFloat (isNum_parseFloat f.repeatPenalty)⟩

/-- The settings that the page starts with are those of its markup. -/
example : saveModelSettings ⟨"4096", "-1", "0", "512", "0.7", "0.9", "40", "1.1"⟩ = initialSettings := by decide +kernel

end LaManchaland.Ui.ModelSettings
