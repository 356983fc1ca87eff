import LaManchaland.Lib.JsJson

/-!
# Values that encoding/json writes

A `GoValue` has the integers and the floats of its structs apart: an integer is written with all of its digits, a float
as its shortest decimal. `readText_marshal` is what a reader of the text gets.
-/

namespace LaManchaland.GoEncoder

open JsonText
open Decimal (numberText spells_numberText readMagnitude_whole isNumeric_of_isDigit readNumber_of_magnitude written)
open Digits (decValue_repr isDigit_of_mem_repr repr_ne_nil head_repr)
open GoJson (goString)

/-- A number of a struct. -/
inductive GoNumber where
  | int (n : ℤ)
  | float (n : Number)

/-- A value that is written: a struct has its fields in their order, a map sorted by key. -/
abbrev GoValue := Json GoNumber (List CodePoint)

/-- `strconv.AppendInt` in base 10. -/
def intText : ℤ → List Char
  | .ofNat n => n.repr.toList
  | .negSucc n => '-' :: (n + 1).repr.toList

def GoNumber.text : GoNumber → List Char
  | .int n => intText n
  | .float n => numberText n

/-- The number that a text of a number denotes. -/
def GoNumber.read : GoNumber → Number
  | .int n => ⟨n < 0, n.natAbs⟩
  | .float n => written n

/-- `json.Marshal`. -/
def marshal (v : GoValue) : List UInt8 := Utf8.encode (write GoNumber.text GoJson.quote v)

/-- `Encode` of an encoder, which ends the text with a newline. -/
def encodeLine (v : GoValue) : List UInt8 := Utf8.encode (write GoNumber.text GoJson.quote v ++ ['\n'])

/-- What is read of a value that is written. -/
def received : GoValue → Value := Json.map GoNumber.read goString

section Read

theorem readMagnitude_repr (n : ℕ) : readMagnitude n.repr.toList = some (n : ℚ≥0) := by
  have hzero : n.repr.toList.head? ≠ some '0' ∨ n.repr.toList.length = 1 := by
    by_cases h : n = 0
    · subst h
      exact .inr rfl
    · exact .inl (head_repr n h)
  have hend : ∀ c ∈ ([] : List Char).head?, c.isDigit = false ∧ c ≠ '.' := fun c hc => by cases hc
  have hread := readMagnitude_whole (fun c hc => isDigit_of_mem_repr hc) (repr_ne_nil n) hzero hend
  rw [List.append_nil, decValue_repr] at hread
  rw [hread]
  exact congrArg some ((congrArg _ (zpow_zero _)).trans (mul_one _))

/-- **The text of an integer denotes it.** -/
theorem readNumber_intText (n : ℤ) :
    readNumber (intText n) = some (GoNumber.int n).read ∧ ∀ c ∈ intText n, isNumeric c = true := by
  have hnumeric : ∀ k : ℕ, ∀ c ∈ k.repr.toList, isNumeric c = true := fun k c hc =>
    isNumeric_of_isDigit (isDigit_of_mem_repr hc)
  cases n with
  | ofNat n => exact ⟨(readNumber_of_magnitude (readMagnitude_repr n)).1, hnumeric n⟩
  | negSucc n =>
    have hread : (GoNumber.int (.negSucc n)).read = ⟨true, ((n + 1 : ℕ) : ℚ≥0)⟩ := by
      rw [GoNumber.read, decide_eq_true (Int.negSucc_lt_zero n), Int.natAbs_negSucc]
    refine ⟨?_, List.forall_mem_cons.mpr ⟨rfl, hnumeric _⟩⟩
    rw [hread]
    exact (readNumber_of_magnitude (readMagnitude_repr (n + 1))).2

theorem spells_text (n : GoNumber) : Spells n.text (.num n.read) := by
  cases n with
  | int n => exact spells_number (readNumber_intText n).1 (readNumber_intText n).2
  | float n => exact spells_numberText n

theorem readText_write (v : GoValue) : readText (write GoNumber.text GoJson.quote v) = some (received v) :=
  JsonText.readText_write spells_text GoJson.spells_quote v

/-- **What is written is read**, with its numbers as they are written. -/
theorem readText_marshal (v : GoValue) : readText (Utf8.decode (marshal v)) = some (received v) := by
  rw [marshal, Utf8.decode_encode, readText_write]

theorem readText_encodeLine (v : GoValue) : readText (Utf8.decode (encodeLine v)) = some (received v) := by
  rw [encodeLine, Utf8.decode_encode]
  exact JsJson.readText_newline (readText_write v)

end Read

end LaManchaland.GoEncoder
