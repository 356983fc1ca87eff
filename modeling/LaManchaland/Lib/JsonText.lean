import LaManchaland.Lib.Digits
import LaManchaland.Lib.Json
import Mathlib.Algebra.Field.Rat
import Mathlib.Data.List.Forall2
import Mathlib.Data.List.Lex
import Mathlib.Order.Fin.Basic

/-!
# JSON texts

Texts are lists of characters. `lex` cuts a text into tokens, one character at a time, and `parse` reads the tokens with
a stack of the arrays and objects that are open; neither needs a bound. A string is a list of code points, because an
escape may stand for half of a surrogate pair only, and a number has its sign and its magnitude.

`write` is the text of a value with no blanks, for any ways to write numbers and strings. `readText_write`: reading it
gives the value back when its numbers and its strings are read back.
-/

namespace LaManchaland

namespace JsonText

open Digits (decValue hexDigit hexValue)

/-! ## Strings and numbers -/

abbrev CodePoint := Fin 0x110000

/-- A code point that is half of a surrogate pair. -/
def CodePoint.isSurrogate (p : CodePoint) : Bool := 0xD800 ≤ p.val && p.val < 0xE000

def codePoint (c : Char) : CodePoint := Fin.ofNat 0x110000 c.toNat

/-- A number as a text gives it. -/
structure Number where
  neg : Bool
  mag : ℚ≥0
  deriving DecidableEq

/-- The values of JSON texts. -/
abbrev Value := Json Number (List CodePoint)

/-- What a string literal is made of: characters, and units of UTF-16 as escapes. -/
inductive Piece where
  | raw (c : Char)
  | unit (n : Nat)
  deriving DecidableEq

def isHigh (n : Nat) : Bool := 0xD800 ≤ n && n < 0xDC00

def isLow (n : Nat) : Bool := 0xDC00 ≤ n && n < 0xE000

/-- The code points of a string literal: a high and a low unit in a row are one. -/
def codePoints : List Piece → List CodePoint
  | .unit hi :: .unit lo :: l =>
    if isHigh hi && isLow lo then
      Fin.ofNat 0x110000 (0x10000 + (hi - 0xD800) * 0x400 + (lo - 0xDC00)) :: codePoints l
    else Fin.ofNat 0x110000 hi :: codePoints (.unit lo :: l)
  | .unit n :: l => Fin.ofNat 0x110000 n :: codePoints l
  | .raw c :: l => codePoint c :: codePoints l
  | [] => []

/-- The digits of an exponent, after its sign. -/
def readDigits (l : List Char) : Option Nat := if l ≠ [] ∧ l.all Char.isDigit then some (decValue l) else none

/-- What follows the digits of a number: nothing, or an exponent. -/
def readExponent : List Char → Option ℤ
  | [] => some 0
  | e :: l =>
    if e = 'e' ∨ e = 'E' then
      match l with
      | '+' :: l => (readDigits l).map fun n : ℕ => (n : ℤ)
      | '-' :: l => (readDigits l).map fun n : ℕ => -(n : ℤ)
      | l => (readDigits l).map fun n : ℕ => (n : ℤ)
    else none

/-- The digits of a fraction, and the exponent. -/
def readFraction : List Char → Option (List Char × ℤ)
  | '.' :: l =>
    if l.takeWhile Char.isDigit = [] then none
    else (readExponent (l.dropWhile Char.isDigit)).map (l.takeWhile Char.isDigit, ·)
  | l => (readExponent l).map ([], ·)

/-- A decimal: a significand in units of a power of ten. -/
structure Dec where
  digits : ℕ
  exp : ℤ
  deriving DecidableEq

def Dec.value (d : Dec) : ℚ≥0 := d.digits * 10 ^ d.exp

/-- The magnitude of a number; the integer part has no needless zeros. -/
def readMagnitude (l : List Char) : Option ℚ≥0 :=
  let int := l.takeWhile Char.isDigit
  if int = [] ∨ (int.head? = some '0' ∧ int.length ≠ 1) then none
  else
    (readFraction (l.dropWhile Char.isDigit)).map fun (frac, e) => Dec.value ⟨decValue (int ++ frac), e - frac.length⟩

def readNumber : List Char → Option Number
  | '-' :: l => (readMagnitude l).map (⟨true, ·⟩)
  | l => (readMagnitude l).map (⟨false, ·⟩)

/-! ## Tokens -/

inductive Token where
  | lbracket
  | rbracket
  | lbrace
  | rbrace
  | colon
  | comma
  | null
  | bool (b : Bool)
  | num (n : Number)
  | str (s : List CodePoint)
  deriving DecidableEq

def readWord (l : List Char) : Option Token :=
  if l = ['n', 'u', 'l', 'l'] then some .null
  else if l = ['t', 'r', 'u', 'e'] then some (.bool true)
  else if l = ['f', 'a', 'l', 's', 'e'] then some (.bool false)
  else none

/-- The lexer between two characters: the token that is under way. -/
inductive Lexer where
  | idle
  | word (read : List Char)
  | num (read : List Char)
  | str (read : List Piece)
  | escape (read : List Piece)
  | hex (read : List Piece) (digits : List Char)
  deriving DecidableEq

def isBlank (c : Char) : Bool := c = ' ' || c = '\n' || c = '\t' || c = '\r'

/-- The characters that numbers are made of. -/
def isNumeric (c : Char) : Bool := c.isDigit || c = '-' || c = '+' || c = '.' || c = 'e' || c = 'E'

def punctuation : List (Char × Token) :=
  [('[', .lbracket), (']', .rbracket), ('{', .lbrace), ('}', .rbrace), (':', .colon), (',', .comma)]

/-- A character outside of a token. -/
def begin (c : Char) : Option (List Token × Lexer) :=
  if isBlank c then some ([], .idle)
  else if c = '"' then some ([], .str [])
  else if c = '-' || c.isDigit then some ([], .num [c])
  else if c.isAlpha then some ([], .word [c])
  else (punctuation.lookup c).map fun t => ([t], .idle)

/-- A character after the end of a number or a word. -/
def thenBegin (t : Option Token) (c : Char) : Option (List Token × Lexer) :=
  t.bind fun t => (begin c).map fun next => (t :: next.1, next.2)

/-- The characters of the escapes of one letter. -/
def escapes : List (Char × Char) :=
  [('"', '"'), ('\\', '\\'), ('/', '/'), ('b', '\x08'), ('f', '\x0C'), ('n', '\n'), ('r', '\r'), ('t', '\t')]

/-- One character: the tokens that it completes, and the lexer after it. -/
def Lexer.feed : Lexer → Char → Option (List Token × Lexer)
  | .idle, c => begin c
  | .word read, c => if c.isAlpha then some ([], .word (read ++ [c])) else thenBegin (readWord read) c
  | .num read, c =>
    if isNumeric c then some ([], .num (read ++ [c])) else thenBegin ((readNumber read).map .num) c
  | .str read, c =>
    if c = '"' then some ([.str (codePoints read)], .idle)
    else if c = '\\' then some ([], .escape read)
    else if c.toNat < 0x20 then none
    else some ([], .str (read ++ [.raw c]))
  | .escape read, c =>
    if c = 'u' then some ([], .hex read [])
    else (escapes.lookup c).map fun d => ([], .str (read ++ [.raw d]))
  | .hex read digits, c =>
    if (hexDigit c).isNone then none
    else if digits.length < 3 then some ([], .hex read (digits ++ [c]))
    else some ([], .str (read ++ [.unit (hexValue (digits ++ [c]))]))

/-- The token that the end of the text completes. -/
def Lexer.finish : Lexer → Option (List Token)
  | .idle => some []
  | .word read => (readWord read).map ([·])
  | .num read => (readNumber read).map fun n => [.num n]
  | _ => none

def Lexer.run : Lexer → List Char → Option (List Token)
  | m, [] => m.finish
  | m, c :: s => (m.feed c).bind fun next => (next.2.run s).map (next.1 ++ ·)

/-- The tokens of a text. -/
def lex (s : List Char) : Option (List Token) := Lexer.idle.run s

/-! ## Parsing -/

/-- An array or an object that waits for a value. -/
inductive Frame where
  | arr (items : List Value)
  | obj (fields : List (List CodePoint × Value)) (key : List CodePoint)

/-- What the parser is at. -/
inductive Mode where
  | value
  /-- After the opening bracket. -/
  | item
  | afterItem (items : List Value)
  /-- After the opening brace. -/
  | member
  /-- After a comma between members. -/
  | key (fields : List (List CodePoint × Value))
  | colon (fields : List (List CodePoint × Value)) (key : List CodePoint)
  | afterMember (fields : List (List CodePoint × Value))
  | done (v : Value)

/-- The parser between two tokens. -/
abbrev Parser := Mode × List Frame

/-- A value has been read. -/
def complete (v : Value) : List Frame → Parser
  | [] => (.done v, [])
  | .arr items :: stack => (.afterItem (items ++ [v]), stack)
  | .obj fields key :: stack => (.afterMember (fields ++ [(key, v)]), stack)

/-- The first token of a value. -/
def beginValue (stack : List Frame) : Token → Option Parser
  | .lbracket => some (.item, stack)
  | .lbrace => some (.member, stack)
  | .null => some (complete .null stack)
  | .bool b => some (complete (.bool b) stack)
  | .num n => some (complete (.num n) stack)
  | .str s => some (complete (.str s) stack)
  | _ => none

def Parser.step : Parser → Token → Option Parser
  | (.value, stack), t => beginValue stack t
  | (.item, stack), .rbracket => some (complete (.arr []) stack)
  | (.item, stack), t => beginValue (.arr [] :: stack) t
  | (.afterItem items, stack), .comma => some (.value, .arr items :: stack)
  | (.afterItem items, stack), .rbracket => some (complete (.arr items) stack)
  | (.member, stack), .rbrace => some (complete (.obj []) stack)
  | (.member, stack), .str key => some (.colon [] key, stack)
  | (.key fields, stack), .str key => some (.colon fields key, stack)
  | (.colon fields key, stack), .colon => some (.value, .obj fields key :: stack)
  | (.afterMember fields, stack), .comma => some (.key fields, stack)
  | (.afterMember fields, stack), .rbrace => some (complete (.obj fields) stack)
  | _, _ => none

def Parser.run : Parser → List Token → Option Parser
  | p, [] => some p
  | p, t :: toks => (p.step t).bind fun p => p.run toks

/-- The value at the end of the tokens. -/
def Parser.result : Parser → Option Value
  | (.done v, []) => some v
  | _ => none

/-- The value of a list of tokens. -/
def parse (toks : List Token) : Option Value := (Parser.run (.value, []) toks).bind Parser.result

/-- The value of a text. -/
def readText (s : List Char) : Option Value := (lex s).bind parse

/-! ## Writing -/

/-- Lists with a separator between them. -/
def separated {α : Type*} (c : α) : List (List α) → List α
  | [] => []
  | l :: ls => l ++ ls.flatMap (c :: ·)

def writeAlg {ν : Type} (num : ν → List Char) (str : List CodePoint → List Char) :
    Json.Alg ν (List CodePoint) (List Char) where
  null := ['n', 'u', 'l', 'l']
  bool b := if b then ['t', 'r', 'u', 'e'] else ['f', 'a', 'l', 's', 'e']
  num := num
  str := str
  arr items := '[' :: separated ',' items ++ [']']
  obj fields := '{' :: separated ',' (fields.map fun p => str p.1 ++ ':' :: p.2) ++ ['}']

/-- The text of a value over any numbers, with ways to write numbers and strings. -/
def write {ν : Type} (num : ν → List Char) (str : List CodePoint → List Char) : Json ν (List CodePoint) → List Char :=
  Json.fold (writeAlg num str)

def tokensAlg (g : Number → Number) (h : List CodePoint → List CodePoint) :
    Json.Alg Number (List CodePoint) (List Token) where
  null := [.null]
  bool b := [.bool b]
  num n := [.num (g n)]
  str s := [.str (h s)]
  arr items := .lbracket :: separated .comma items ++ [.rbracket]
  obj fields := .lbrace :: separated .comma (fields.map fun p => .str (h p.1) :: .colon :: p.2) ++ [.rbrace]

/-- The tokens of a value whose numbers and strings are mapped. -/
def tokens (g : Number → Number) (h : List CodePoint → List CodePoint) : Value → List Token :=
  Json.fold (tokensAlg g h)

section Parse

variable (g : Number → Number) (h : List CodePoint → List CodePoint)

theorem run_append (toks toks' : List Token) :
    ∀ p : Parser, p.run (toks ++ toks') = (p.run toks).bind (·.run toks') := by
  induction toks with
  | nil => exact fun p => rfl
  | cons t toks ih =>
    intro p
    rw [List.cons_append, Parser.run, Parser.run]
    cases p.step t with
    | none => rfl
    | some q => exact ih q

theorem tokens_arr (items : List Value) : tokens g h (.arr items) =
    .lbracket :: separated .comma (items.map (tokens g h)) ++ [.rbracket] := Json.fold_arr (tokensAlg g h) items

theorem tokens_obj (fields : List (List CodePoint × Value)) : tokens g h (.obj fields) =
    .lbrace :: separated .comma (fields.map fun p => .str (h p.1) :: .colon :: tokens g h p.2) ++ [.rbrace] := by
  have hfields := Json.fold_obj (tokensAlg g h) fields
  simp only [tokensAlg, List.map_map] at hfields
  exact hfields

/-- A value does not begin with a closing bracket. -/
theorem tokens_eq_cons (v : Value) : ∃ t toks, tokens g h v = t :: toks ∧ t ≠ .rbracket := by
  cases v with
  | arr items => exact ⟨_, _, tokens_arr g h items, by decide⟩
  | obj fields => exact ⟨_, _, tokens_obj g h fields, by decide⟩
  | _ => exact ⟨_, _, rfl, by simp⟩

/-- The first item of an array is read as any other value. -/
theorem step_item {t : Token} (ht : t ≠ .rbracket) (stack : List Frame) :
    Parser.step (.item, stack) t = Parser.step (.value, .arr [] :: stack) t := by
  cases t with
  | rbracket => exact absurd rfl ht
  | _ => rfl

/-- The items of an array after the first. -/
theorem run_items (stack : List Frame) : ∀ (items done : List Value),
    (∀ v ∈ items, ∀ stack, Parser.run (.value, stack) (tokens g h v) = some (complete (Json.map g h v) stack)) →
    Parser.run (.afterItem done, stack) ((items.map (tokens g h)).flatMap (.comma :: ·) ++ [.rbracket]) =
      some (complete (.arr (done ++ items.map (Json.map g h))) stack)
  | [], done, _ => by
    rw [List.map_nil, List.map_nil, List.append_nil]
    rfl
  | v :: items, done, ih => by
    have hitems := run_items stack items (done ++ [Json.map g h v]) fun w hw => ih w (List.mem_cons_of_mem v hw)
    have hstep : Parser.step (.afterItem done, stack) .comma = some (.value, .arr done :: stack) := rfl
    rw [List.map_cons, List.flatMap_cons, List.cons_append, List.cons_append, Parser.run, hstep, Option.bind_some,
      List.append_assoc, run_append, ih v List.mem_cons_self, Option.bind_some]
    refine Eq.trans hitems ?_
    rw [List.map_cons, List.append_assoc]
    rfl

/-- The members of an object after the first. -/
theorem run_members (stack : List Frame) : ∀ (fields done : List (List CodePoint × Value)),
    (∀ p ∈ fields, ∀ stack,
      Parser.run (.value, stack) (tokens g h p.2) = some (complete (Json.map g h p.2) stack)) →
    Parser.run (.afterMember done, stack)
        ((fields.map fun p => .str (h p.1) :: .colon :: tokens g h p.2).flatMap (.comma :: ·) ++ [.rbrace]) =
      some (complete (.obj (done ++ fields.map (Prod.map h (Json.map g h)))) stack)
  | [], done, _ => by
    rw [List.map_nil, List.map_nil, List.append_nil]
    rfl
  | (k, v) :: fields, done, ih => by
    have hfields := run_members stack fields (done ++ [(h k, Json.map g h v)])
      fun p hp => ih p (List.mem_cons_of_mem _ hp)
    have hstep : ∀ toks, Parser.run (.afterMember done, stack) (.comma :: .str (h k) :: .colon :: toks) =
        Parser.run (.value, .obj done (h k) :: stack) toks := fun _ => rfl
    rw [List.map_cons, List.flatMap_cons]
    simp only [List.cons_append, List.append_assoc]
    rw [hstep, run_append, ih (k, v) List.mem_cons_self, Option.bind_some]
    refine Eq.trans hfields ?_
    rw [List.map_cons, List.append_assoc]
    rfl

/-- **The tokens of a value are read as the value**, wherever one may stand. -/
theorem run_tokens (v : Value) : ∀ stack : List Frame,
    Parser.run (.value, stack) (tokens g h v) = some (complete (Json.map g h v) stack) := by
  induction v using Json.induct with
  | null => exact fun _ => rfl
  | bool b => exact fun _ => rfl
  | num n => exact fun _ => rfl
  | str s => exact fun _ => rfl
  | arr items ih =>
    intro stack
    rw [tokens_arr, Json.map_arr]
    cases items with
    | nil => rfl
    | cons v items =>
      have hfirst : Parser.run (.item, stack) (tokens g h v) =
          some (.afterItem [Json.map g h v], stack) := by
        obtain ⟨t, toks, htoks, ht⟩ := tokens_eq_cons g h v
        have hv := ih v List.mem_cons_self (.arr [] :: stack)
        rw [htoks] at hv ⊢
        rw [Parser.run, step_item ht]
        exact hv
      have hopen : ∀ toks, Parser.run (.value, stack) (.lbracket :: toks) = Parser.run (.item, stack) toks :=
        fun _ => rfl
      rw [List.map_cons, separated, List.cons_append, hopen, List.append_assoc, run_append, hfirst, Option.bind_some]
      exact run_items g h stack items [Json.map g h v] fun w hw => ih w (List.mem_cons_of_mem v hw)
  | obj fields ih =>
    intro stack
    rw [tokens_obj, Json.map_obj]
    cases fields with
    | nil => rfl
    | cons p fields =>
      have hopen : ∀ toks, Parser.run (.value, stack) (.lbrace :: .str (h p.1) :: .colon :: toks) =
        Parser.run (.value, .obj [] (h p.1) :: stack) toks := fun _ => rfl
      rw [List.map_cons, separated]
      simp only [List.cons_append, List.append_assoc]
      rw [hopen, run_append, ih p List.mem_cons_self, Option.bind_some]
      exact run_members g h stack fields [(h p.1, Json.map g h p.2)] fun q hq => ih q (List.mem_cons_of_mem p hq)

theorem parse_tokens (v : Value) : parse (tokens g h v) = some (Json.map g h v) := by
  rw [parse, run_tokens]
  rfl

end Parse

section Lex

/-- What may follow a value or a key: nothing, or a character that ends numbers and words. -/
def Ends (rest : List Char) : Prop := rest = [] ∨ ∃ c s, rest = c :: s ∧ c ∈ [',', ']', '}', ':']

/-- `l` is the text of the token `t`. -/
def Spells (l : List Char) (t : Token) : Prop :=
  ∀ rest, Ends rest → Lexer.idle.run (l ++ rest) = (Lexer.idle.run rest).map (t :: ·)

theorem ends_cons {c : Char} (hc : c ∈ [',', ']', '}', ':']) (s : List Char) : Ends (c :: s) := .inr ⟨c, s, rfl, hc⟩

/-- A character that ends a number or a word is not part of it. -/
theorem not_part {c : Char} (hc : c ∈ [',', ']', '}', ':']) : c.isAlpha = false ∧ isNumeric c = false := by
  simp only [List.mem_cons, List.not_mem_nil, or_false] at hc
  rcases hc with rfl | rfl | rfl | rfl <;> decide

/-- A token that is under way is completed by the end or by the next character. -/
theorem run_pending {m : Lexer} {t : Token} (hfinish : m.finish = some [t])
    (hfeed : ∀ c ∈ [',', ']', '}', ':'], m.feed c = thenBegin (some t) c) {rest : List Char} (h : Ends rest) :
    m.run rest = (Lexer.idle.run rest).map (t :: ·) := by
  rcases h with rfl | ⟨c, s, rfl, hc⟩
  · rw [Lexer.run, hfinish]
    rfl
  · rw [Lexer.run, Lexer.run, hfeed c hc, thenBegin, Option.bind_some]
    show ((begin c).map fun next => (t :: next.1, next.2)).bind _ = ((begin c).bind _).map _
    cases begin c with
    | none => rfl
    | some next =>
      simp only [Option.map_some, Option.bind_some, Option.map_map]
      rfl

/-- A character that completes no token. -/
theorem run_cons {m m' : Lexer} {c : Char} (hfeed : m.feed c = some ([], m')) (s : List Char) :
    m.run (c :: s) = m'.run s := by
  rw [Lexer.run, hfeed, Option.bind_some]
  exact Option.map_id'

theorem run_word : ∀ (l read rest : List Char), l.all Char.isAlpha = true →
    (Lexer.word read).run (l ++ rest) = (Lexer.word (read ++ l)).run rest
  | [], read, rest, _ => by rw [List.nil_append, List.append_nil]
  | c :: l, read, rest, h => by
    rw [List.all_cons, Bool.and_eq_true] at h
    have ih := run_word l (read ++ [c]) rest h.2
    have hfeed : (Lexer.word read).feed c = some ([], .word (read ++ [c])) := if_pos h.1
    rw [List.cons_append, run_cons hfeed, ih, List.append_assoc]
    rfl

theorem spells_word {c : Char} {l : List Char} {t : Token} (hword : readWord (c :: l) = some t)
    (hbegin : begin c = some ([], .word [c])) (halpha : l.all Char.isAlpha = true) : Spells (c :: l) t := by
  intro rest hrest
  have hrun : Lexer.idle.run (c :: l ++ rest) = (Lexer.word (c :: l)).run rest := by
    have hfeed : Lexer.idle.feed c = some ([], .word [c]) := hbegin
    rw [List.cons_append, run_cons hfeed, run_word l [c] rest halpha]
    rfl
  rw [hrun]
  refine run_pending (by rw [Lexer.finish, hword]; rfl) (fun d hd => ?_) hrest
  rw [Lexer.feed, (not_part hd).1, hword]
  rfl

theorem run_num : ∀ (l read rest : List Char), (∀ c ∈ l, isNumeric c = true) →
    (Lexer.num read).run (l ++ rest) = (Lexer.num (read ++ l)).run rest
  | [], read, rest, _ => by rw [List.nil_append, List.append_nil]
  | c :: l, read, rest, h => by
    have hc : isNumeric c = true := h c List.mem_cons_self
    have ih := run_num l (read ++ [c]) rest fun d hd => h d (List.mem_cons_of_mem c hd)
    have hfeed : (Lexer.num read).feed c = some ([], .num (read ++ [c])) := if_pos hc
    rw [List.cons_append, run_cons hfeed, ih, List.append_assoc]
    rfl

/-- The first character of a magnitude. -/
theorem isDigit_of_readMagnitude {c : Char} {l : List Char} {q : ℚ≥0} (h : readMagnitude (c :: l) = some q) :
    c.isDigit = true := by
  by_contra hne
  rw [readMagnitude, List.takeWhile_cons, if_neg hne] at h
  cases h

/-- The first character of a number. -/
theorem first_number {c : Char} {l : List Char} {n : Number} (h : readNumber (c :: l) = some n) :
    c = '-' ∨ c.isDigit = true := by
  by_cases hminus : c = '-'
  · exact .inl hminus
  · rw [readNumber] at h
    · obtain ⟨q, hq, -⟩ := Option.map_eq_some_iff.mp h
      exact .inr (isDigit_of_readMagnitude hq)
    · exact fun l hl => hminus (List.cons.inj hl).1

theorem begin_number {c : Char} {l : List Char} {n : Number} (h : readNumber (c :: l) = some n) :
    begin c = some ([], .num [c]) := by
  have hfirst := first_number h
  have hblank : isBlank c = false ∧ c ≠ '"' := by
    rcases hfirst with rfl | hdigit
    · decide
    · refine ⟨?_, ?_⟩
      · rw [isBlank]
        simp only [Bool.or_eq_false_iff, decide_eq_false_iff_not]
        refine ⟨⟨⟨?_, ?_⟩, ?_⟩, ?_⟩ <;> rintro rfl <;> exact absurd hdigit (by decide)
      · rintro rfl
        exact absurd hdigit (by decide)
  have hstart : (c = '-' || c.isDigit) = true := by simpa using hfirst
  rw [begin, hblank.1, if_neg Bool.false_ne_true, if_neg hblank.2, if_pos hstart]

/-- **The text of a number**: its characters are numeric and they read as the number. -/
theorem spells_number {l : List Char} {n : Number} (h : readNumber l = some n)
    (hnumeric : ∀ c ∈ l, isNumeric c = true) : Spells l (.num n) := by
  intro rest hrest
  cases l with
  | nil => cases h
  | cons c l =>
    have hrun : Lexer.idle.run (c :: l ++ rest) = (Lexer.num (c :: l)).run rest := by
      have hfeed : Lexer.idle.feed c = some ([], .num [c]) := begin_number h
      rw [List.cons_append, run_cons hfeed, run_num l [c] rest fun d hd => hnumeric d (List.mem_cons_of_mem c hd)]
      rfl
    rw [hrun]
    refine run_pending (by rw [Lexer.finish, h]; rfl) (fun d hd => ?_) hrest
    rw [Lexer.feed, (not_part hd).2, h]
    rfl

variable {str : List CodePoint → List Char} {h : List CodePoint → List CodePoint}

/-- The text of a list of tokens. -/
def SpellsAll (l : List Char) (toks : List Token) : Prop :=
  ∀ rest, Ends rest → Lexer.idle.run (l ++ rest) = (Lexer.idle.run rest).map (toks ++ ·)

theorem Spells.all {l : List Char} {t : Token} (h : Spells l t) : SpellsAll l [t] := h

/-- Punctuation is one token, whatever follows. -/
theorem run_punctuation {c : Char} {t : Token} (hc : begin c = some ([t], .idle)) (s : List Char) :
    Lexer.idle.run (c :: s) = (Lexer.idle.run s).map (t :: ·) := by
  have hfeed : Lexer.idle.feed c = some ([t], .idle) := hc
  rw [Lexer.run, hfeed]
  rfl

/-- A text ends where a comma or a closing bracket follows. -/
theorem ends_separated {c : Char} (hc : c ∈ [']', '}']) (ls : List (List Char)) (rest : List Char) :
    Ends (ls.flatMap (',' :: ·) ++ c :: rest) := by
  cases ls with
  | nil => exact ends_cons (by simp only [List.mem_cons] at hc ⊢; tauto) rest
  | cons l ls => exact ends_cons (by decide) _

/-- Texts with a comma between them. -/
theorem spells_separated {c : Char} {t : Token} (hc : c ∈ [']', '}']) (hbegin : begin c = some ([t], .idle)) :
    ∀ {ls : List (List Char)} {ts : List (List Token)}, List.Forall₂ SpellsAll ls ts → ∀ rest,
      Lexer.idle.run (ls.flatMap (',' :: ·) ++ c :: rest) =
        (Lexer.idle.run rest).map (ts.flatMap (.comma :: ·) ++ t :: ·)
  | _, _, .nil, rest => run_punctuation hbegin rest
  | l :: ls, toks :: ts, .cons hl hls, rest => by
    have htail := spells_separated hc hbegin hls rest
    have hends := ends_separated hc ls rest
    rw [List.flatMap_cons, List.cons_append, List.cons_append, run_punctuation rfl, List.append_assoc, hl _ hends,
      htail, Option.map_map, Option.map_map]
    refine congrArg (Option.map · _) (funext fun x => ?_)
    simp only [Function.comp_apply, List.flatMap_cons, List.cons_append, List.append_assoc]

/-- Texts between brackets. -/
theorem spells_brackets {o c : Char} {t t' : Token} (hopen : begin o = some ([t], .idle)) (hc : c ∈ [']', '}'])
    (hclose : begin c = some ([t'], .idle)) {ls : List (List Char)} {ts : List (List Token)}
    (h : List.Forall₂ SpellsAll ls ts) :
    SpellsAll (o :: separated ',' ls ++ [c]) (t :: separated .comma ts ++ [t']) := by
  intro rest _
  rw [List.cons_append, List.cons_append, run_punctuation hopen, List.append_assoc]
  cases h with
  | nil =>
    refine (congrArg (Option.map _) (run_punctuation hclose rest)).trans ?_
    rw [Option.map_map]
    rfl
  | @cons l toks ls ts hl hls =>
    have htail := spells_separated hc hclose hls rest
    have hends := ends_separated hc ls rest
    have hfirst := (hl _ hends).trans (congrArg (Option.map (toks ++ ·)) htail)
    simp only [separated, List.append_assoc, List.cons_append, List.nil_append, hfirst, Option.map_map]
    refine congrArg (Option.map · _) (funext fun x => ?_)
    simp only [Function.comp_apply]

section Write

variable {ν : Type} {enc : ν → List Char} {val : ν → Number}

theorem write_arr (items : List (Json ν (List CodePoint))) : write enc str (.arr items) =
    '[' :: separated ',' (items.map (write enc str)) ++ [']'] := Json.fold_arr (writeAlg enc str) items

theorem write_obj (fields : List (List CodePoint × Json ν (List CodePoint))) : write enc str (.obj fields) =
    '{' :: separated ',' (fields.map fun p => str p.1 ++ ':' :: write enc str p.2) ++ ['}'] := by
  have hfields := Json.fold_obj (writeAlg enc str) fields
  simp only [writeAlg, List.map_map] at hfields
  exact hfields

/-- **The text of a value gives the tokens of what it stands for**, when numbers and strings do. -/
theorem spells_write (hnum : ∀ n, Spells (enc n) (.num (val n))) (hstr : ∀ s, Spells (str s) (.str (h s)))
    (v : Json ν (List CodePoint)) : SpellsAll (write enc str v) (tokens id id (Json.map val h v)) := by
  induction v using Json.induct with
  | null => exact (spells_word rfl rfl (by decide)).all
  | bool b =>
    cases b with
    | true => exact (spells_word rfl rfl (by decide)).all
    | false => exact (spells_word rfl rfl (by decide)).all
  | num n => exact (hnum n).all
  | str s => exact (hstr s).all
  | arr items ih =>
    rw [write_arr, Json.map_arr, tokens_arr, List.map_map]
    refine spells_brackets rfl (by decide) rfl ?_
    rw [List.forall₂_map_left_iff, List.forall₂_map_right_iff]
    exact List.forall₂_same.mpr ih
  | obj fields ih =>
    rw [write_obj, Json.map_obj, tokens_obj, List.map_map]
    refine spells_brackets rfl (by decide) rfl ?_
    rw [List.forall₂_map_left_iff, List.forall₂_map_right_iff]
    refine List.forall₂_same.mpr fun p hp rest hrest => ?_
    have hcolon : Lexer.idle.run (':' :: (write enc str p.2 ++ rest)) = _ := run_punctuation rfl _
    rw [List.append_assoc, List.cons_append, hstr p.1 _ (ends_cons (by decide) _), hcolon, ih p hp rest hrest,
      Option.map_map, Option.map_map]
    rfl

/-- **Reading what was written** gives what it stands for, with the strings as they are read back. -/
theorem readText_write (hnum : ∀ n, Spells (enc n) (.num (val n))) (hstr : ∀ s, Spells (str s) (.str (h s)))
    (v : Json ν (List CodePoint)) : readText (write enc str v) = some (Json.map val h v) := by
  have hlex : lex (write enc str v) = some (tokens id id (Json.map val h v)) := by
    have hrun := spells_write hnum hstr v [] (.inl rfl)
    rw [List.append_nil] at hrun
    rw [lex, hrun]
    exact congrArg some (List.append_nil _)
  rw [readText, hlex, Option.bind_some, parse_tokens, Json.map_id]

end Write

end Lex

end JsonText

end LaManchaland
