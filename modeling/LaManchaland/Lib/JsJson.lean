import LaManchaland.Lib.GoJson
import LaManchaland.Lib.JsonDoc

/-!
# JSON.stringify

`stringify` is the text that ECMAScript writes for a value: the shortest decimals of its numbers, and strings in which
quotes, backslashes, control characters and halves of surrogate pairs are escaped.

`readText_stringify`: reading the text gives the value, with its numbers as they are written. A text is read as it is
(`reread_text`), and two halves that are escaped in a row as one code point. So a value of doubles and texts survives
the trip to package encoding/json: `unmarshal_stringify`.
-/

namespace LaManchaland.JsJson

open JsonText
open Json (canon kept)
open Decimal (numberText spells_numberText readNumber_numberText written nearest_shortest)
open Float64 (IsDouble nearest)
open GoJson (unicodeEscape toRune run_unicodeEscape goNumber goString goNumber_written goString_text goValue unmarshal
  maxNestingDepth GoMap)

/-! ## Strings -/

/-- A character in a string literal. -/
def escape (c : Char) : List Char :=
  if c = '"' then ['\\', '"']
  else if c = '\\' then ['\\', '\\']
  else if c = '\x08' then ['\\', 'b']
  else if c = '\x0C' then ['\\', 'f']
  else if c = '\n' then ['\\', 'n']
  else if c = '\r' then ['\\', 'r']
  else if c = '\t' then ['\\', 't']
  else if c.toNat < 0x20 then unicodeEscape c.toNat
  else [c]

/-- A code point in a string literal. -/
def quotePoint (p : CodePoint) : List Char := if p.isSurrogate then unicodeEscape p.val else escape (toRune p)

/-- A string literal. -/
def quote (s : List CodePoint) : List Char := '"' :: s.flatMap quotePoint ++ ['"']

/-- What an escaped code point is read as. -/
def pieceOf (p : CodePoint) : Piece :=
  if p.isSurrogate then .unit p.val
  else if (toRune p).toNat < 0x20 then GoJson.pieceOf (toRune p)
  else .raw (toRune p)

/-- A string as it is read back. -/
def reread (s : List CodePoint) : List CodePoint := codePoints (s.map pieceOf)

section Strings

/-- The characters that the two writers escape alike. -/
theorem escape_eq {c : Char} (h : c.toNat < 0x20) : escape c = GoJson.escape c := by
  have hunsafe : GoJson.isUnsafe c = true := by simp [GoJson.isUnsafe, h]
  simp only [escape, GoJson.escape, if_pos h, if_pos hunsafe]

theorem run_escape (c : Char) (read : List Piece) (rest : List Char) : (Lexer.str read).run (escape c ++ rest) =
    (Lexer.str (read ++ [if c.toNat < 0x20 then GoJson.pieceOf c else .raw c])).run rest := by
  by_cases hcontrol : c.toNat < 0x20
  · rw [escape_eq hcontrol, if_pos hcontrol]
    exact GoJson.run_escape c read rest
  rw [if_neg hcontrol]
  by_cases hquote : c = '"'
  · subst hquote
    exact GoJson.run_letter (by decide) rfl read rest
  by_cases hslash : c = '\\'
  · subst hslash
    exact GoJson.run_letter (by decide) rfl read rest
  have hplain : escape c = [c] := by
    have hne : ∀ d : Char, d.toNat < 0x20 → c ≠ d := fun d hd hcd => hcontrol (hcd ▸ hd)
    rw [escape, if_neg hquote, if_neg hslash, if_neg (hne _ (by decide)), if_neg (hne _ (by decide)),
      if_neg (hne _ (by decide)), if_neg (hne _ (by decide)), if_neg (hne _ (by decide)), if_neg hcontrol]
  have hfeed : (Lexer.str read).feed c = some ([], .str (read ++ [.raw c])) := by
    rw [Lexer.feed, if_neg hquote, if_neg hslash, if_neg hcontrol]
  rw [hplain, List.singleton_append, run_cons hfeed]

theorem run_quotePoint (p : CodePoint) (read : List Piece) (rest : List Char) :
    (Lexer.str read).run (quotePoint p ++ rest) = (Lexer.str (read ++ [pieceOf p])).run rest := by
  unfold quotePoint pieceOf
  split
  · rename_i hhalf
    rw [CodePoint.isSurrogate, Bool.and_eq_true, decide_eq_true_eq, decide_eq_true_eq] at hhalf
    exact run_unicodeEscape (by omega) read rest
  · exact run_escape (toRune p) read rest

theorem run_quotePoints : ∀ (s : List CodePoint) (read : List Piece) (rest : List Char),
    (Lexer.str read).run (s.flatMap quotePoint ++ rest) = (Lexer.str (read ++ s.map pieceOf)).run rest
  | [], read, rest => by rw [List.map_nil, List.append_nil]; rfl
  | p :: s, read, rest => by
    rw [List.flatMap_cons, List.append_assoc, run_quotePoint, run_quotePoints s, List.map_cons, List.append_assoc]
    rfl

/-- **The text of a string is read back.** -/
theorem spells_quote (s : List CodePoint) : Spells (quote s) (.str (reread s)) := by
  intro rest _
  have hopen : Lexer.idle.feed '"' = some ([], .str []) := rfl
  have hclose : (Lexer.str (s.map pieceOf)).feed '"' = some ([.str (codePoints (s.map pieceOf))], .idle) := rfl
  rw [quote, List.cons_append, List.cons_append, run_cons hopen, List.append_assoc, run_quotePoints, List.nil_append,
    List.singleton_append, Lexer.run, hclose]
  rfl

/-- **A text is read as it is.** -/
theorem reread_text : ∀ cs : List Char, reread (cs.map codePoint) = cs.map codePoint
  | [] => rfl
  | c :: cs => by
    have ih := reread_text cs
    have hwhole : (codePoint c).isSurrogate = false := (GoJson.not_surrogate c).1
    rw [reread, List.map_cons, List.map_cons, pieceOf, hwhole, if_neg Bool.false_ne_true, GoJson.toRune_codePoint]
    split
    · rename_i hcontrol
      unfold GoJson.pieceOf
      split
      · have hlow : isHigh c.toNat = false := by
          rw [isHigh, Bool.and_eq_false_iff, decide_eq_false_iff_not]
          omega
        rw [GoJson.codePoints_unit hlow]
        exact congrArg (codePoint c :: ·) ih
      · exact congrArg (codePoint c :: ·) ih
    · exact congrArg (codePoint c :: ·) ih

/-- A digit of an escape does not end the string. -/
theorem scan_digit (k : ℕ) (s : List Char) : Scanner.inside.run ((k % 16).digitChar :: s) = Scanner.inside.run s := by
  have hdigit : ∀ n < 16, n.digitChar ≠ '"' ∧ n.digitChar ≠ '\\' := by decide
  obtain ⟨hquote, hslash⟩ := hdigit (k % 16) (Nat.mod_lt k (by omega))
  rw [scan_cons, Scanner.feed, if_neg hquote, if_neg hslash]
  rfl

theorem scan_unicodeEscape (n : ℕ) (s : List Char) :
    Scanner.inside.run (unicodeEscape n ++ s) = Scanner.inside.run s := by
  have hopen : ∀ s, Scanner.inside.run ('\\' :: 'u' :: s) = Scanner.inside.run s := fun _ => rfl
  simp only [unicodeEscape, List.cons_append, List.nil_append]
  rw [hopen, scan_digit, scan_digit, scan_digit, scan_digit]

/-- No escape ends the string. -/
theorem scan_quotePoint (p : CodePoint) (s : List Char) :
    Scanner.inside.run (quotePoint p ++ s) = Scanner.inside.run s := by
  have hletter : ∀ c : Char, Scanner.inside.run (['\\', c] ++ s) = Scanner.inside.run s := fun _ => rfl
  unfold quotePoint escape
  split
  · exact scan_unicodeEscape p.val s
  by_cases hquote : toRune p = '"'
  · rw [if_pos hquote]
    exact hletter _
  by_cases hslash : toRune p = '\\'
  · rw [if_neg hquote, if_pos hslash]
    exact hletter _
  rw [if_neg hquote, if_neg hslash]
  split
  · exact hletter _
  split
  · exact hletter _
  split
  · exact hletter _
  split
  · exact hletter _
  split
  · exact hletter _
  split
  · exact scan_unicodeEscape _ s
  · rw [List.singleton_append, scan_cons, Scanner.feed, if_neg hquote, if_neg hslash]
    rfl

theorem scan_quotePoints : ∀ (s : List CodePoint) (rest : List Char),
    Scanner.inside.run (s.flatMap quotePoint ++ rest) = Scanner.inside.run rest
  | [], _ => rfl
  | p :: s, rest => by rw [List.flatMap_cons, List.append_assoc, scan_quotePoint, scan_quotePoints s]

/-- The text of a string gives no literal. -/
theorem gives_quote (s : List CodePoint) : Gives (quote s) [] := by
  intro rest _
  have hopen : ∀ l, Scanner.outside.run ('"' :: l) = Scanner.inside.run l := fun _ => rfl
  rw [quote, List.cons_append, List.cons_append, hopen, List.append_assoc, scan_quotePoints]
  rfl

end Strings

/-! ## Values -/

/-- `JSON.stringify`. -/
def stringify (v : Value) : List Char := write numberText quote v

/-- **Reading what was written.** -/
theorem readText_stringify (v : Value) : readText (stringify v) = some (Json.map written reread v) :=
  readText_write spells_numberText spells_quote v

/-- The same with the literals that were written. -/
theorem readDoc_stringify (v : Value) : readDoc (stringify v) = some (Json.map numberText reread v) :=
  readDoc_write readNumber_numberText (fun s => ⟨spells_quote s, gives_quote s⟩) v

/-! ## To encoding/json -/

/-- The numbers are doubles and the strings are texts. -/
structure Plain (v : Value) : Prop where
  numbers : ∀ n ∈ v.numbers, IsDouble n.mag
  strings : ∀ s ∈ v.strings, ∃ cs : List Char, s = cs.map codePoint

section Plain

variable {v : Value} {items : List Value} {fields : List (List CodePoint × Value)}

theorem plain_null : Plain .null := ⟨fun n hn => (by cases hn), fun s hs => (by cases hs)⟩

theorem plain_bool (b : Bool) : Plain (.bool b) := ⟨fun n hn => (by cases hn), fun s hs => (by cases hs)⟩

theorem plain_num {n : Number} (h : IsDouble n.mag) : Plain (.num n) :=
  ⟨fun m hm => List.mem_singleton.mp hm ▸ h, fun s hs => (by cases hs)⟩

theorem plain_str (cs : List Char) : Plain (.str (cs.map codePoint)) :=
  ⟨fun n hn => (by cases hn), fun s hs => ⟨cs, List.mem_singleton.mp hs⟩⟩

theorem plain_arr (h : ∀ v ∈ items, Plain v) : Plain (.arr items) where
  numbers n hn := by
    obtain ⟨v, hv, hn⟩ := Json.mem_numbers_arr.mp hn
    exact (h v hv).numbers n hn
  strings s hs := by
    obtain ⟨v, hv, hs⟩ := Json.mem_strings_arr.mp hs
    exact (h v hv).strings s hs

theorem plain_obj (hkeys : ∀ p ∈ fields, ∃ cs : List Char, p.1 = cs.map codePoint) (h : ∀ p ∈ fields, Plain p.2) :
    Plain (.obj fields) where
  numbers n hn := by
    obtain ⟨p, hp, hn⟩ := Json.mem_numbers_obj.mp hn
    exact (h p hp).numbers n hn
  strings s hs := by
    obtain ⟨p, hp, hs⟩ := Json.mem_strings_obj.mp hs
    rcases hs with rfl | hs
    · exact hkeys p hp
    · exact (h p hp).strings s hs

/-- What is written for a plain value is decoded to what the value means. -/
theorem canon_plain (h : Plain v) : canon (goNumber ∘ written) (goString ∘ reread) v = canon id id v := by
  refine Json.canon_of_fixed ⟨fun n hn => ?_, fun s hs => ?_⟩
  · obtain ⟨m, hm, hnm⟩ := Json.mem_numbers_canon id id hn
    rw [hnm]
    exact goNumber_written (h.numbers m hm)
  · obtain ⟨t, ht, hst⟩ := Json.mem_strings_canon id id hs
    obtain ⟨cs, hcs⟩ := h.strings t ht
    rw [hst, hcs, id_eq, Function.comp_apply, reread_text, goString_text]

/-- **An object of doubles and texts** is decoded to what it means. -/
theorem unmarshal_stringify (h : Plain (.obj fields)) (hdepth : (Json.obj fields).depth ≤ maxNestingDepth) :
    ∃ m, unmarshal (Utf8.encode (stringify (.obj fields))) = some (some m) ∧
      Json.obj m = canon id id (.obj fields) := by
  have hread := readText_stringify (.obj fields)
  have hrange : ((Json.map written reread (.obj fields)).numbers.all fun n => (GoJson.parseFloat n).isSome) = true := by
    rw [Json.numbers_map, List.all_map, List.all_eq_true]
    intro n hn
    have hnearest : nearest (written n).mag = some n.mag := nearest_shortest (h.numbers n hn)
    rw [Function.comp_apply, GoJson.parseFloat, hnearest]
    rfl
  have hmeans : goValue (Json.map written reread (.obj fields)) = canon id id (.obj fields) := by
    rw [goValue, Json.canon_map, canon_plain h]
  have hdepth' : ¬maxNestingDepth < (Json.map written reread (.obj fields)).depth := by
    rw [Json.depth_map]
    exact not_lt.mpr hdepth
  rw [Json.map_obj] at hread hrange hmeans hdepth'
  rw [unmarshal, Utf8.decode_encode, hread]
  simp only [if_neg hdepth', if_pos hrange]
  exact ⟨_, rfl, (Json.canon_obj goNumber goString _).symm.trans hmeans⟩

end Plain

/-! ## A newline after the text -/

/-- A newline completes what the end of the text would complete. -/
theorem run_newline : ∀ (l : List Char) (m : Lexer) (toks : List Token), m.run l = some toks →
    m.run (l ++ ['\n']) = some toks
  | [], m, toks, h => by
    rw [Lexer.run] at h
    cases m with
    | idle => exact h
    | word read =>
      obtain ⟨t, ht, rfl⟩ := Option.map_eq_some_iff.mp h
      have hfeed : (Lexer.word read).feed '\n' = some ([t], .idle) := by
        rw [Lexer.feed, if_neg (by decide), ht]
        rfl
      rw [List.nil_append, Lexer.run, hfeed]
      rfl
    | num read =>
      obtain ⟨n, hn, rfl⟩ := Option.map_eq_some_iff.mp h
      have hfeed : (Lexer.num read).feed '\n' = some ([.num n], .idle) := by
        rw [Lexer.feed, if_neg (by decide), hn]
        rfl
      rw [List.nil_append, Lexer.run, hfeed]
      rfl
    | str read => cases h
    | escape read => cases h
    | hex read digits => cases h
  | c :: l, m, toks, h => by
    rw [Lexer.run] at h
    obtain ⟨⟨first, m'⟩, hfeed, h⟩ := Option.bind_eq_some_iff.mp h
    obtain ⟨rest, hrest, rfl⟩ := Option.map_eq_some_iff.mp h
    rw [List.cons_append, Lexer.run, hfeed, Option.bind_some, run_newline l m' rest hrest]
    rfl

/-- **A newline after a text** changes nothing. -/
theorem readText_newline {l : List Char} {v : Value} (h : readText l = some v) : readText (l ++ ['\n']) = some v := by
  obtain ⟨toks, htoks, hv⟩ := Option.bind_eq_some_iff.mp h
  rw [readText, lex, run_newline l .idle toks htoks]
  exact hv

end LaManchaland.JsJson
