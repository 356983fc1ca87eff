import Mathlib.Data.List.Basic

/-!
# UTF-8

`encode` writes characters as bytes. `decode` reads any bytes: a byte that does not begin a character stands for the
replacement character. What has been encoded is decoded to itself (`decode_encode`).
-/

namespace LaManchaland.Utf8

def encode (s : List Char) : List UInt8 := s.flatMap String.utf8EncodeChar

/-- The characters of a text, after the bytes that belong to the character before. -/
def decodeFrom : Nat → List UInt8 → List Char
  | _, [] => []
  | 0, b :: l =>
    match (b :: l).toByteArray.utf8DecodeChar? 0 with
    | some c => c :: decodeFrom (c.utf8Size - 1) l
    | none => '\uFFFD' :: decodeFrom 0 l
  | skip + 1, _ :: l => decodeFrom skip l

def decode : List UInt8 → List Char := decodeFrom 0

theorem decodeFrom_append : ∀ l l' : List UInt8, decodeFrom l.length (l ++ l') = decodeFrom 0 l'
  | [], _ => rfl
  | _ :: l, l' => decodeFrom_append l l'

/-- **Decoding gives back the characters.** -/
theorem decode_encode : ∀ s : List Char, decode (encode s) = s
  | [] => rfl
  | c :: s => by
    obtain ⟨b, l, hl⟩ := List.exists_cons_of_ne_nil (String.utf8EncodeChar_ne_nil (c := c))
    have hsize : l.length = c.utf8Size - 1 := by
      have hlength := String.length_utf8EncodeChar c
      rw [hl, List.length_cons] at hlength
      omega
    have hread : (b :: (l ++ encode s)).toByteArray.utf8DecodeChar? 0 = some c := by
      rw [← List.cons_append, ← hl, List.toByteArray_append]
      exact ByteArray.utf8DecodeChar?_utf8EncodeChar_append
    have hsplit : encode (c :: s) = b :: (l ++ encode s) := by
      rw [← List.cons_append, ← hl]
      rfl
    rw [decode, hsplit, decodeFrom, hread]
    simp only [← hsize, decodeFrom_append]
    exact congrArg (c :: ·) (decode_encode s)

end LaManchaland.Utf8
