import LaManchaland.Lib.JsJson

/-!
# Structs in package encoding/json

`decode` is what a decoder makes of a body and a struct: it reads the first value of the body, sets the fields that its
members name, one member after the other, and leaves the others at their zero values. A name is matched exactly, or else
without regard to case. `null` sets nothing, a string field takes strings only, and an integer field takes the literals
that `strconv.ParseInt` takes: no fraction, no exponent, and 64 bits.

`parseInt_numberText`: an integer that JavaScript writes is taken exactly when it is below `2 ^ 63`, and it is taken as
its shortest decimal.
-/

namespace LaManchaland.GoStruct

open Digits (decValue)
open JsonText
open JsJson (reread reread_text)
open Decimal
open Float64 (IsDouble)
open GoJson (toRune maxNestingDepth)

/-! ## Fields -/

/-- `strconv.ParseInt` in base 10 with 64 bits. -/
def parseInt (l : List Char) : Option ℤ :=
  let neg : Bool := l.head? = some '-'
  let l := if l.head? = some '-' ∨ l.head? = some '+' then l.tail else l
  if l = [] ∨ l.all Char.isDigit = false then none
  else if neg then if decValue l ≤ 2 ^ 63 then some (-decValue l) else none
  else if decValue l < 2 ^ 63 then some (decValue l) else none

/-- A string as it is decoded. -/
def goText (s : List CodePoint) : String := String.ofList (s.map toRune)

/-- A field of a struct: what a value sets it to. A value of another type is an error. -/
structure StructField (σ : Type) where
  name : String
  set : Doc → σ → Option σ

variable {σ : Type}

def strField (name : String) (put : String → σ → σ) : StructField σ where
  name := name
  set
    | .null, x => some x
    | .str s, x => some (put (goText s) x)
    | _, _ => none

def intField (name : String) (put : ℤ → σ → σ) : StructField σ where
  name := name
  set
    | .null, x => some x
    | .num l, x => (parseInt l).map (put · x)
    | _, _ => none

/-- A letter without regard to case; two other characters stand for a letter too. -/
def foldRune (c : Char) : Char :=
  if 'a' ≤ c ∧ c ≤ 'z' then Char.ofNat (c.toNat - 32)
  else if c = '\u017F' then 'S'
  else if c = '\u212A' then 'K'
  else c

def foldName (name : String) : List Char := name.toList.map foldRune

/-- The field that a member is for. -/
def field (fs : List (StructField σ)) (name : String) : Option (StructField σ) :=
  (fs.find? fun f => f.name = name).or (fs.find? fun f => foldName f.name = foldName name)

/-! ## Decoding -/

/-- A member of the object; one that names no field is skipped. -/
def setMember (fs : List (StructField σ)) (x : σ) (p : List CodePoint × Doc) : Option σ :=
  match field fs (goText p.1) with
  | some f => f.set p.2 x
  | none => some x

/-- A document in place of a struct. -/
def decodeDoc (fs : List (StructField σ)) (x : σ) : Doc → Option σ
  | .null => some x
  | .obj members => members.foldlM (setMember fs) x
  | _ => none

/-- `json.NewDecoder(r.Body).Decode` into a struct that has its zero values. -/
def decode (fs : List (StructField σ)) (zero : σ) (body : List UInt8) : Option σ :=
  (readDoc (Utf8.decode body)).bind fun d => if maxNestingDepth < d.depth then none else decodeDoc fs zero d

section Decode

variable {fs : List (StructField σ)} {x : σ} {k : List CodePoint} {d : Doc}

theorem setMember_of_field {f : StructField σ} (h : field fs (goText k) = some f) :
    setMember fs x (k, d) = f.set d x := by
  rw [setMember, h]

/-- A text is decoded as it is. -/
theorem goText_reread (cs : List Char) : goText (reread (cs.map codePoint)) = String.ofList cs := by
  rw [reread_text, goText, List.map_map]
  exact congrArg String.ofList ((List.map_congr_left fun c _ => GoJson.toRune_codePoint c).trans (List.map_id cs))

end Decode

/-! ## Integers -/

section Integers

/-- Digits after an optional sign. -/
theorem parseInt_digits {l : List Char} (hne : l ≠ []) (hdigits : ∀ c ∈ l, c.isDigit = true) :
    parseInt l = (if decValue l < 2 ^ 63 then some (decValue l : ℤ) else none) ∧
      parseInt ('-' :: l) = if decValue l ≤ 2 ^ 63 then some (-decValue l : ℤ) else none := by
  have hall : l.all Char.isDigit = true := List.all_eq_true.mpr hdigits
  have hsign : l.head? ≠ some '-' ∧ l.head? ≠ some '+' := by
    cases l with
    | nil => exact absurd rfl hne
    | cons c l =>
      have hc := hdigits c List.mem_cons_self
      constructor <;>
      · intro h
        rw [Option.some.inj h] at hc
        cases hc
  constructor
  · simp [parseInt, hsign, hne, hall]
  · simp [parseInt, hne, hall]

/-- A literal with a point or an exponent. -/
theorem parseInt_scientific {d c : Char} {l : List Char} (hd : d.isDigit = true) (hc : c.isDigit = false) :
    parseInt (d :: c :: l) = none ∧ parseInt ('-' :: d :: c :: l) = none := by
  have hsign : d ≠ '-' ∧ d ≠ '+' := by
    constructor <;>
    · rintro rfl
      cases hd
  constructor
  · simp [parseInt, hsign, hc]
  · simp [parseInt, hc]

/-- The integer that a number without a fraction is written as. -/
def wholeValue (v : ℚ≥0) : ℕ := (shortest v).digits * 10 ^ (shortest v).exp.toNat

theorem value_eq_wholeValue {v : ℚ≥0} (h : 0 ≤ (shortest v).exp) : (shortest v).value = wholeValue v := by
  rw [Dec.value, wholeValue, ← Int.toNat_of_nonneg h, zpow_natCast]
  push_cast
  rfl

/-- The double `2 ^ 63` is written as an integer above it. -/
theorem lt_wholeValue : (2 : ℚ≥0) ^ 63 < (shortest (2 ^ 63)).value := by
  have hshortest : shortest (2 ^ 63) = ⟨9223372036854776, 3⟩ := by decide +kernel
  rw [hshortest, Dec.value]
  norm_num

variable {v : ℚ≥0} (hv : IsDouble v) (hexp : 0 ≤ (shortest v).exp)

include hv hexp

/-- **An integer of JavaScript is taken when it is below `2 ^ 63`**, whatever its sign. -/
theorem parseInt_numberText (neg : Bool) : parseInt (numberText ⟨neg, v⟩) =
    if v < 2 ^ 63 then some (if neg then -(wholeValue v : ℤ) else wholeValue v) else none := by
  have hdouble : IsDouble ((2 ^ 63 : ℚ≥0) : ℚ) := by exact_mod_cast Float64.isDouble_two_pow (k := 63) (by decide)
  have hvalue := value_eq_wholeValue hexp
  have hlt : wholeValue v < 2 ^ 63 ↔ v < 2 ^ 63 := by
    rw [← value_shortest_lt hv hdouble lt_wholeValue.le, hvalue]
    exact_mod_cast Iff.rfl
  have hle : wholeValue v ≤ 2 ^ 63 ↔ v < 2 ^ 63 := by
    rw [← value_shortest_le hv hdouble lt_wholeValue, hvalue]
    exact_mod_cast Iff.rfl
  rcases lt_or_ge (shortest v).value (10 ^ 21) with hsmall | hlarge
  · obtain ⟨hne, hdigits, hread⟩ := whole_text hexp hsmall
    rw [hvalue] at hread
    have hread : decValue (text v) = wholeValue v := by exact_mod_cast hread
    have hparse := parseInt_digits hne hdigits
    rw [hread] at hparse
    cases neg with
    | false =>
      refine hparse.1.trans ?_
      by_cases h : v < 2 ^ 63
      · rw [if_pos h, if_pos (hlt.mpr h)]
        rfl
      · rw [if_neg h, if_neg (h ∘ hlt.mp)]
    | true =>
      refine hparse.2.trans ?_
      by_cases h : v < 2 ^ 63
      · rw [if_pos h, if_pos (hle.mpr h)]
        rfl
      · rw [if_neg h, if_neg (h ∘ hle.mp)]
  · obtain ⟨d, c, l, htext, hd, hc⟩ := scientific_text hexp hlarge
    have hc : c.isDigit = false := by rcases hc with rfl | rfl <;> rfl
    have hparse := parseInt_scientific (l := l) hd hc
    have hnot : ¬v < 2 ^ 63 := by
      rw [← hlt]
      rw [hvalue] at hlarge
      have hlarge : 10 ^ 21 ≤ wholeValue v := by exact_mod_cast hlarge
      omega
    rw [if_neg hnot, ← hparse.1, ← htext]
    cases neg with
    | false => rfl
    | true =>
      show parseInt ('-' :: text v) = parseInt (text v)
      rw [htext, hparse.1, hparse.2]

end Integers

end LaManchaland.GoStruct
