import LaManchaland.Lib.Decimal
import LaManchaland.Lib.Utf8

/-!
# Package encoding/json

`unmarshal` reads bytes into a `map[string]interface{}` and `marshal` writes one. On the way in numbers become doubles
(`goNumber`), strings become text (`goString`, which replaces half surrogate pairs), and the last value of a key counts;
a number out of range and a nesting that is too deep are errors, and `null` leaves the map nil. On the way out the keys
are sorted, and the characters that matter to HTML are escaped.

`unmarshal_marshal`: a map that has been read is read back from what is written for it. `meaning_marshal` is what the
written text means, and `sent` what becomes of a number: `sent_eq_iff` says that it is left alone exactly when it is the
shortest decimal of some double.
-/

namespace LaManchaland.GoJson

open Fields
open Json (canon kept Fixed)
open JsonText
open Decimal
open Float64 (IsDouble nearest)

/-! ## Strings -/

/-- The character of a code point; half of a surrogate pair becomes the replacement character. -/
def toRune (p : CodePoint) : Char := if p.isSurrogate then '\uFFFD' else Char.ofNat p.val

/-- A string as it is decoded. -/
def goString (s : List CodePoint) : List CodePoint := s.map fun p => codePoint (toRune p)

/-- An escape of four digits. -/
def unicodeEscape (n : ℕ) : List Char :=
  ['\\', 'u', (n / 4096 % 16).digitChar, (n / 256 % 16).digitChar, (n / 16 % 16).digitChar, (n % 16).digitChar]

/-- The characters that are escaped with four digits. -/
def isUnsafe (c : Char) : Bool :=
  c.toNat < 0x20 || c = '<' || c = '>' || c = '&' || c.toNat = 0x2028 || c.toNat = 0x2029

/-- A character in a string literal. -/
def escape (c : Char) : List Char :=
  if c = '"' then ['\\', '"']
  else if c = '\\' then ['\\', '\\']
  else if c = '\x08' then ['\\', 'b']
  else if c = '\x0C' then ['\\', 'f']
  else if c = '\n' then ['\\', 'n']
  else if c = '\r' then ['\\', 'r']
  else if c = '\t' then ['\\', 't']
  else if isUnsafe c then unicodeEscape c.toNat
  else [c]

/-- A string literal. -/
def quote (s : List CodePoint) : List Char := '"' :: (s.map toRune).flatMap escape ++ ['"']

section Strings

theorem not_surrogate (c : Char) : (codePoint c).isSurrogate = false ∧ (codePoint c).val = c.toNat := by
  have hvalid : c.toNat < 0xD800 ∨ (0xDFFF < c.toNat ∧ c.toNat < 0x110000) := c.valid
  have hval : (codePoint c).val = c.toNat := Nat.mod_eq_of_lt (by omega)
  refine ⟨?_, hval⟩
  rw [CodePoint.isSurrogate, hval, Bool.and_eq_false_iff, decide_eq_false_iff_not, decide_eq_false_iff_not]
  omega

theorem toRune_codePoint (c : Char) : toRune (codePoint c) = c := by
  rw [toRune, (not_surrogate c).1, (not_surrogate c).2]
  exact Char.ofNat_toNat c

theorem codePoint_toRune {p : CodePoint} (h : p.isSurrogate = false) : codePoint (toRune p) = p := by
  have hp := p.isLt
  have hvalid : p.val.isValidChar := by
    rw [CodePoint.isSurrogate, Bool.and_eq_false_iff, decide_eq_false_iff_not, decide_eq_false_iff_not] at h
    rw [Nat.isValidChar]
    omega
  have hval : (codePoint (toRune p)).val = p.val := by
    rw [(not_surrogate _).2, toRune, h, if_neg Bool.false_ne_true, Char.ofNat, dif_pos hvalid]
    rfl
  exact Fin.ext hval

/-- A text is left alone. -/
theorem goString_text (cs : List Char) : goString (cs.map codePoint) = cs.map codePoint := by
  rw [goString, List.map_map]
  exact List.map_congr_left fun c _ => congrArg codePoint (toRune_codePoint c)

theorem goString_idem (s : List CodePoint) : goString (goString s) = goString s := by
  have htext : (s.map toRune).map codePoint = goString s := List.map_map
  rw [← htext, goString_text]

/-- **A string is left alone exactly when it has no half of a surrogate pair.** -/
theorem goString_eq_iff {s : List CodePoint} : goString s = s ↔ ∀ p ∈ s, p.isSurrogate = false := by
  constructor
  · intro h p hp
    rw [← h] at hp
    obtain ⟨q, -, rfl⟩ := List.mem_map.mp hp
    exact (not_surrogate _).1
  · intro h
    exact (List.map_congr_left fun p hp => codePoint_toRune (h p hp)).trans (List.map_id s)

/-! A literal is read back. -/

/-- What an escaped character is read as. -/
def pieceOf (c : Char) : Piece :=
  if c ∉ ['"', '\\', '\x08', '\x0C', '\n', '\r', '\t'] ∧ isUnsafe c then .unit c.toNat else .raw c

/-- What is escaped has four digits, and is no half of a surrogate pair. -/
theorem lt_of_isUnsafe {c : Char} (h : isUnsafe c = true) : c.toNat < 0xD800 := by
  simp only [isUnsafe, Bool.or_eq_true, decide_eq_true_eq] at h
  rcases h with ((((h | rfl) | rfl) | rfl) | h) | h
  · omega
  · decide
  · decide
  · decide
  · omega
  · omega

theorem hexDigit_digitChar : ∀ n < 16, Digits.hexDigit n.digitChar = some n := by decide

theorem hexValue_digits {n : ℕ} (h : n < 65536) : Digits.hexValue
    [(n / 4096 % 16).digitChar, (n / 256 % 16).digitChar, (n / 16 % 16).digitChar, (n % 16).digitChar] = n := by
  have hdigit : ∀ k, Digits.hexDigit (k % 16).digitChar = some (k % 16) := fun k =>
    hexDigit_digitChar _ (Nat.mod_lt k (by omega))
  simp only [Digits.hexValue, List.foldl_cons, List.foldl_nil, hdigit, Option.getD_some]
  omega

theorem run_unicodeEscape {n : ℕ} (h : n < 65536) (read : List Piece) (rest : List Char) :
    (Lexer.str read).run (unicodeEscape n ++ rest) = (Lexer.str (read ++ [.unit n])).run rest := by
  have hdigit : ∀ k, (Digits.hexDigit (k % 16).digitChar).isNone = false := fun k => by
    rw [hexDigit_digitChar _ (Nat.mod_lt k (by omega))]
    rfl
  have hfeed : ∀ digits : List Char, ∀ k, digits.length < 3 →
      (Lexer.hex read digits).feed (k % 16).digitChar = some ([], .hex read (digits ++ [(k % 16).digitChar])) := by
    intro digits k hlen
    rw [Lexer.feed, hdigit, if_neg Bool.false_ne_true, if_pos hlen]
  have hlast : ∀ digits : List Char, ∀ k, digits.length = 3 → (Lexer.hex read digits).feed (k % 16).digitChar =
      some ([], .str (read ++ [.unit (Digits.hexValue (digits ++ [(k % 16).digitChar]))])) := by
    intro digits k hlen
    rw [Lexer.feed, hdigit, if_neg Bool.false_ne_true, if_neg (by omega)]
  have hvalue := hexValue_digits h
  have hslash : (Lexer.str read).feed '\\' = some ([], .escape read) := rfl
  have hu : (Lexer.escape read).feed 'u' = some ([], .hex read []) := rfl
  have hlast' := hlast [(n / 4096 % 16).digitChar, (n / 256 % 16).digitChar, (n / 16 % 16).digitChar] n rfl
  simp only [List.cons_append, List.nil_append, hvalue] at hlast'
  simp only [unicodeEscape, List.cons_append, List.nil_append]
  calc (Lexer.str read).run _ = (Lexer.hex read []).run _ := by rw [run_cons hslash, run_cons hu]
    _ = (Lexer.hex read [_]).run _ := run_cons (hfeed [] _ (by decide)) _
    _ = (Lexer.hex read [_, _]).run _ := run_cons (hfeed [_] _ (by simp)) _
    _ = (Lexer.hex read [_, _, _]).run _ := run_cons (hfeed [_, _] _ (by simp)) _
    _ = (Lexer.str (read ++ [.unit n])).run rest := run_cons hlast' rest

/-- An escape of one letter. -/
theorem run_letter {l c : Char} (hl : l ≠ 'u') (hc : escapes.lookup l = some c) (read : List Piece) (rest : List Char) :
    (Lexer.str read).run ('\\' :: l :: rest) = (Lexer.str (read ++ [.raw c])).run rest := by
  have hslash : (Lexer.str read).feed '\\' = some ([], .escape read) := rfl
  have hletter : (Lexer.escape read).feed l = some ([], .str (read ++ [.raw c])) := by
    rw [Lexer.feed, if_neg hl, hc]
    rfl
  rw [run_cons hslash, run_cons hletter]

/-- **An escaped character is read back.** -/
theorem run_escape (c : Char) (read : List Piece) (rest : List Char) :
    (Lexer.str read).run (escape c ++ rest) = (Lexer.str (read ++ [pieceOf c])).run rest := by
  by_cases hletter : c ∈ ['"', '\\', '\x08', '\x0C', '\n', '\r', '\t']
  · have hpiece : pieceOf c = .raw c := if_neg fun h => h.1 hletter
    rw [hpiece]
    simp only [List.mem_cons, List.not_mem_nil, or_false] at hletter
    rcases hletter with rfl | rfl | rfl | rfl | rfl | rfl | rfl <;> exact run_letter (by decide) rfl read rest
  · have hplain : escape c = if isUnsafe c then unicodeEscape c.toNat else [c] := by
      simp only [List.mem_cons, List.not_mem_nil, or_false, not_or] at hletter
      obtain ⟨h1, h2, h3, h4, h5, h6, h7⟩ := hletter
      rw [escape, if_neg h1, if_neg h2, if_neg h3, if_neg h4, if_neg h5, if_neg h6, if_neg h7]
    rw [hplain]
    cases hescaped : isUnsafe c with
    | true =>
      have hsmall : c.toNat < 65536 := (lt_of_isUnsafe hescaped).trans (by decide)
      rw [if_pos rfl, run_unicodeEscape hsmall, pieceOf, if_pos ⟨hletter, hescaped⟩]
    | false =>
      have hfeed : (Lexer.str read).feed c = some ([], .str (read ++ [.raw c])) := by
        simp only [List.mem_cons, not_or] at hletter
        simp only [isUnsafe, Bool.or_eq_false_iff, decide_eq_false_iff_not] at hescaped
        rw [Lexer.feed, if_neg hletter.1, if_neg hletter.2.1, if_neg hescaped.1.1.1.1.1]
      rw [if_neg Bool.false_ne_true, List.singleton_append, run_cons hfeed, pieceOf,
        if_neg fun h => by simp [hescaped] at h]

theorem run_escapes : ∀ (cs : List Char) (read : List Piece) (rest : List Char),
    (Lexer.str read).run (cs.flatMap escape ++ rest) = (Lexer.str (read ++ cs.map pieceOf)).run rest
  | [], read, rest => by rw [List.map_nil, List.append_nil]; rfl
  | c :: cs, read, rest => by
    rw [List.flatMap_cons, List.append_assoc, run_escape, run_escapes cs, List.map_cons, List.append_assoc]
    rfl

/-- A unit that is no high half is a code point by itself. -/
theorem codePoints_unit {n : ℕ} (h : isHigh n = false) (l : List Piece) :
    codePoints (.unit n :: l) = Fin.ofNat 0x110000 n :: codePoints l := by
  cases l with
  | nil => rfl
  | cons p l =>
    cases p with
    | raw d =>
      rw [codePoints]
      exact fun lo l' h => by cases h
    | unit m => rw [codePoints, h, Bool.false_and, if_neg Bool.false_ne_true]

/-- The units of the escapes are characters by themselves. -/
theorem codePoints_pieces : ∀ cs : List Char, codePoints (cs.map pieceOf) = cs.map codePoint
  | [] => rfl
  | c :: cs => by
    have ih := codePoints_pieces cs
    rw [List.map_cons, List.map_cons]
    by_cases hunit : c ∉ ['"', '\\', '\x08', '\x0C', '\n', '\r', '\t'] ∧ isUnsafe c = true
    · have hhigh : isHigh c.toNat = false := by
        have hlt := lt_of_isUnsafe hunit.2
        rw [isHigh, Bool.and_eq_false_iff, decide_eq_false_iff_not, decide_eq_false_iff_not]
        omega
      have hpiece : pieceOf c = .unit c.toNat := if_pos hunit
      rw [hpiece, codePoints_unit hhigh, ih]
      rfl
    · have hpiece : pieceOf c = .raw c := if_neg hunit
      rw [hpiece, codePoints, ih]

/-- **The text of a string is read as the decoded string.** -/
theorem spells_quote (s : List CodePoint) : Spells (quote s) (.str (goString s)) := by
  intro rest _
  have hopen : Lexer.idle.feed '"' = some ([], .str []) := rfl
  have hclose : (Lexer.str ((s.map toRune).map pieceOf)).feed '"' =
      some ([.str (codePoints ((s.map toRune).map pieceOf))], .idle) := rfl
  have hstring : (s.map toRune).map codePoint = goString s := List.map_map
  rw [quote, List.cons_append, List.cons_append, run_cons hopen, List.append_assoc, run_escapes, List.nil_append,
    List.singleton_append, Lexer.run, hclose, codePoints_pieces, hstring]
  rfl

end Strings

/-! ## Numbers -/

/-- `strconv.ParseFloat` of a magnitude, under its sign; a number out of range is an error. -/
def parseFloat (n : Number) : Option Number := (nearest n.mag).map fun v => { n with mag := v }

/-- A number as it is decoded; with an error it is not used. -/
def goNumber (n : Number) : Number := (parseFloat n).getD { n with mag := 0 }

/-- What becomes of a number that is decoded and written. -/
def sent (n : Number) : Number := written (goNumber n)

/-- The shortest decimal of some double. -/
def IsShortest (q : ℚ≥0) : Prop := ∃ v : ℚ≥0, IsDouble v ∧ (shortest v).value = q

section Numbers

theorem goNumber_isDouble (n : Number) : IsDouble (goNumber n).mag := by
  unfold goNumber parseFloat
  cases h : nearest n.mag with
  | none => exact ⟨by norm_num, 0, 0, by norm_num, by norm_num, by norm_num⟩
  | some v => exact Float64.nearest_isDouble h

/-- A number that has been decoded is decoded again from what is written for it. -/
theorem goNumber_written {n : Number} (h : IsDouble n.mag) : goNumber (written n) = n := by
  have hnearest : nearest (written n).mag = some n.mag := nearest_shortest h
  rw [goNumber, parseFloat, hnearest]
  rfl

theorem sent_idem (n : Number) : sent (sent n) = sent n := by
  have hback : goNumber (written (goNumber n)) = goNumber n := goNumber_written (goNumber_isDouble n)
  rw [sent, sent, hback]

/-- **A number is left alone exactly when it is the shortest decimal of some double.** -/
theorem sent_eq_iff {n : Number} : sent n = n ↔ IsShortest n.mag := by
  constructor
  · intro h
    exact ⟨(goNumber n).mag, goNumber_isDouble n, congrArg Number.mag h⟩
  · rintro ⟨v, hv, hmag⟩
    have hgo : goNumber n = { n with mag := v } := by
      have hnearest : nearest n.mag = some v := hmag ▸ nearest_shortest hv
      rw [goNumber, parseFloat, hnearest]
      rfl
    rw [sent, hgo, written, hmag]

/-- An integer of 53 bits is left alone. -/
theorem isShortest_natCast {n : ℕ} (h : n < 2 ^ 53) : IsShortest n :=
  ⟨n, Float64.nearest_isDouble (Float64.nearest_natCast h.le), value_shortest h⟩

end Numbers

/-! ## Maps -/

/-- A `map[string]interface{}`, in the order of its keys. -/
abbrev GoMap := List (List CodePoint × Value)

/-- A value as an `interface{}`. -/
def goValue : Value → Value := canon goNumber goString

def maxNestingDepth : ℕ := 10000

/-- `json.Unmarshal` into a map: an error, the nil map, or the members. -/
def unmarshal (body : List UInt8) : Option (Option GoMap) :=
  match readText (Utf8.decode body) with
  | none => none
  | some v =>
    if maxNestingDepth < v.depth then none
    else
      match v with
      | .null => some none
      | .obj fields =>
        if v.numbers.all fun n => (parseFloat n).isSome then
          some (some ((kept goString fields).map (Prod.map id goValue)))
        else none
      | _ => none

/-- `json.Marshal` of a map. -/
def marshal (m : GoMap) : List UInt8 := Utf8.encode (write numberText quote (.obj m))

/-- What a body means. -/
def meaning (body : List UInt8) : Option Value := (readText (Utf8.decode body)).map (canon id id)

/-- What holds of a map that has been read. -/
structure Decoded (m : GoMap) : Prop where
  increasing : Increasing m
  canonical : ∀ p ∈ m, canon id id p.2 = p.2
  numbers : ∀ n ∈ (Json.obj m).numbers, IsDouble n.mag
  strings : ∀ s ∈ (Json.obj m).strings, goString s = s
  depth : (Json.obj m).depth ≤ maxNestingDepth

section Maps

variable {m : GoMap}

/-- **The text that is written is read back.** -/
theorem readText_marshal (m : GoMap) :
    readText (Utf8.decode (marshal m)) = some (Json.map written goString (.obj m)) := by
  rw [marshal, Utf8.decode_encode]
  exact readText_write spells_numberText spells_quote (.obj m)

theorem Decoded.keys (h : Decoded m) : ∀ p ∈ m, goString p.1 = p.1 := fun p hp =>
  h.strings p.1 (Json.mem_strings_obj.mpr ⟨p, hp, .inl rfl⟩)

/-- The members of a map are the members that count. -/
theorem Decoded.kept (h : Decoded m) : Json.kept goString m = m := by
  rw [Json.kept_of_fixed h.keys, Json.kept_id h.increasing]

/-- What the written text means. -/
theorem meaning_marshal (h : Decoded m) :
    meaning (marshal m) = some (.obj (m.map (Prod.map id (canon written goString)))) := by
  rw [meaning, readText_marshal, Option.map_some, Json.canon_map, Function.id_comp, Function.id_comp, Json.canon_obj,
    h.kept]

/-- What is read is decoded. -/
theorem decoded_unmarshal {body : List UInt8} (h : unmarshal body = some (some m)) : Decoded m := by
  unfold unmarshal at h
  split at h
  · cases h
  split at h
  · cases h
  rename_i v _ hdepth
  split at h
  · cases h
  · rename_i fields _
    split at h
    · simp only [Option.some.injEq] at h
      have hobj : Json.obj m = goValue (.obj fields) := h ▸ (Json.canon_obj goNumber goString fields).symm
      refine ⟨?_, fun p hp => ?_, fun n hn => ?_, fun s hs => ?_, ?_⟩
      · exact h ▸ increasing_map _ (Json.increasing_kept goString fields)
      · rw [← h] at hp
        obtain ⟨q, -, rfl⟩ := List.mem_map.mp hp
        exact Json.canon_comp goNumber goString id q.2
      · rw [hobj] at hn
        obtain ⟨n', -, rfl⟩ := Json.mem_numbers_canon goNumber goString hn
        exact goNumber_isDouble n'
      · rw [hobj] at hs
        obtain ⟨s', -, rfl⟩ := Json.mem_strings_canon goNumber goString hs
        exact goString_idem s'
      · rw [hobj]
        exact Json.depth_canon_le goNumber goString (not_lt.mp hdepth)
    · cases h
  · cases h

/-- A boolean may be stored in a map that has been read. -/
theorem Decoded.setBool (h : Decoded m) {k : List CodePoint} (hk : goString k = k) (b : Bool) :
    Decoded (setKey k (.bool b) m) where
  increasing := increasing_setKey k (.bool b) h.increasing
  canonical p hp := (mem_setKey hp).elim (fun h' => h' ▸ rfl) (h.canonical p)
  numbers n hn := by
    obtain ⟨p, hp, hn⟩ := Json.mem_numbers_obj.mp hn
    rcases mem_setKey hp with rfl | hp
    · cases hn
    · exact h.numbers n (Json.mem_numbers_obj.mpr ⟨p, hp, hn⟩)
  strings s hs := by
    obtain ⟨p, hp, hs⟩ := Json.mem_strings_obj.mp hs
    rcases mem_setKey hp with rfl | hp
    · exact hs.elim (fun hs => hs ▸ hk) fun hs => by cases hs
    · exact h.strings s (Json.mem_strings_obj.mpr ⟨p, hp, hs⟩)
  depth := by
    have hdepth : ∀ p ∈ m, p.2.depth ≤ 9999 := Json.depth_obj_le.mp h.depth
    refine Json.depth_obj_le.mpr fun p hp => ?_
    exact (mem_setKey hp).elim (fun h' => h' ▸ Nat.zero_le _) (hdepth p)

/-- **A map that has been read is read back from what is written for it.** -/
theorem unmarshal_marshal (h : Decoded m) : unmarshal (marshal m) = some (some m) := by
  have hmeaning : canon id id (.obj m) = .obj m := by
    rw [Json.canon_obj, Json.kept_id h.increasing]
    have hvalues : m.map (Prod.map id (canon id id)) = m.map id :=
      List.map_congr_left fun p hp => Prod.ext rfl (h.canonical p hp)
    rw [hvalues, List.map_id]
  have hfixed : Fixed (goNumber ∘ written) (goString ∘ goString) (canon id id (.obj m)) := by
    rw [hmeaning]
    exact ⟨fun n hn => goNumber_written (h.numbers n hn), fun s hs => by
      rw [Function.comp_apply, goString_idem, h.strings s hs]⟩
  have hread : goValue (Json.map written goString (.obj m)) = .obj m := by
    rw [goValue, Json.canon_map, Json.canon_of_fixed hfixed, hmeaning]
  have hrange : ((Json.map written goString (.obj m)).numbers.all fun n => (parseFloat n).isSome) = true := by
    rw [Json.numbers_map, List.all_map, List.all_eq_true]
    intro n hn
    have hnearest : nearest (written n).mag = some n.mag := nearest_shortest (h.numbers n hn)
    rw [Function.comp_apply, parseFloat, hnearest]
    rfl
  rw [unmarshal, readText_marshal]
  simp only [Json.depth_map, if_neg (not_lt.mpr h.depth)]
  rw [Json.map_obj] at hread hrange ⊢
  rw [goValue, Json.canon_obj, Json.obj.injEq] at hread
  simp only [if_pos hrange]
  rw [goValue, hread]

/-- A value that is decoded and written. -/
theorem canon_goValue (v : Value) : canon written goString (goValue v) = canon sent goString v := by
  have hstrings : ∀ s ∈ (goValue v).strings, goString s = id s := by
    intro s hs
    obtain ⟨t, -, rfl⟩ := Json.mem_strings_canon goNumber goString hs
    exact goString_idem t
  rw [Json.canon_congr hstrings, goValue, Json.canon_comp]
  rfl

end Maps

end LaManchaland.GoJson
