import LaManchaland.Lib.JsonText

/-!
# JSON documents

A `Doc` is a JSON value whose numbers are still literals, for readers that tell `1` from `1.0`. `firstValue` reads the
first value of a text and stops there, as a decoder of a stream does, and `Scanner` finds the literals of numbers, which
come in the order of the numbers (`label`). `readDoc` is the first document of a text.

`readDoc_write`: the text of a value is read as the document with the literals that were written. A text that is one
value is its own first value (`firstValue_of_readText`).
-/

namespace LaManchaland.JsonText

/-- A value with the literals of its numbers. -/
abbrev Doc := Json (List Char) (List CodePoint)

/-! ## The first value -/

/-- The value that is complete first; the rest of the text is not looked at. -/
def firstFrom : Lexer → Parser → List Char → Option Value
  | m, p, [] => m.finish.bind fun toks => (p.run toks).bind Parser.result
  | m, p, c :: s => (m.feed c).bind fun next => (p.run next.1).bind fun p =>
    match p.result with
    | some v => some v
    | none => firstFrom next.2 p s

/-- The first value of a text. -/
def firstValue (s : List Char) : Option Value := firstFrom .idle (.value, []) s

/-- After a value there are no tokens. -/
theorem run_result {p : Parser} {v : Value} (hp : p.result = some v) {toks : List Token} {w : Value}
    (h : (p.run toks).bind Parser.result = some w) : toks = [] ∧ v = w := by
  obtain ⟨mode, stack⟩ := p
  cases mode with
  | done u =>
    cases stack with
    | nil =>
      cases toks with
      | nil => exact ⟨rfl, Option.some.inj (hp.symm.trans h)⟩
      | cons t toks => cases h
    | cons f stack => cases hp
  | _ => cases hp

theorem firstFrom_of_run : ∀ {s : List Char} {m : Lexer} {p : Parser} {toks : List Token} {v : Value},
    m.run s = some toks → (p.run toks).bind Parser.result = some v → firstFrom m p s = some v
  | [], m, p, toks, v, hrun, hparse => by
    rw [Lexer.run] at hrun
    rw [firstFrom, hrun]
    exact hparse
  | c :: s, m, p, toks, v, hrun, hparse => by
    rw [Lexer.run] at hrun
    obtain ⟨⟨first, m'⟩, hfeed, hrun⟩ := Option.bind_eq_some_iff.mp hrun
    obtain ⟨rest, hrest, rfl⟩ := Option.map_eq_some_iff.mp hrun
    rw [run_append, Option.bind_assoc] at hparse
    obtain ⟨p', hp', hparse⟩ := Option.bind_eq_some_iff.mp hparse
    rw [firstFrom, hfeed, Option.bind_some, hp', Option.bind_some]
    cases hresult : p'.result with
    | none => exact firstFrom_of_run hrest hparse
    | some u => exact congrArg some (run_result hresult hparse).2

/-- **A text that is one value** is its own first value. -/
theorem firstValue_of_readText {s : List Char} {v : Value} (h : readText s = some v) : firstValue s = some v := by
  obtain ⟨toks, hrun, hparse⟩ := Option.bind_eq_some_iff.mp h
  exact firstFrom_of_run hrun hparse

/-! ## The literals of a text -/

/-- Between two characters: outside of strings, inside of one, after a backslash, or inside the literal of a number. -/
inductive Scanner where
  | outside
  | inside
  | escaped
  | literal (read : List Char)

def Scanner.begin (c : Char) : Scanner :=
  if c = '"' then .inside else if c = '-' || c.isDigit then .literal [c] else .outside

/-- One character: the literal that it ends, and the scanner after it. -/
def Scanner.feed : Scanner → Char → List (List Char) × Scanner
  | .outside, c => ([], begin c)
  | .inside, c => ([], if c = '"' then .outside else if c = '\\' then .escaped else .inside)
  | .escaped, _ => ([], .inside)
  | .literal read, c => if isNumeric c then ([], .literal (read ++ [c])) else ([read], begin c)

def Scanner.run : Scanner → List Char → List (List Char)
  | .literal read, [] => [read]
  | _, [] => []
  | m, c :: s => (m.feed c).1 ++ (m.feed c).2.run s

/-- The literals of the numbers of a text. -/
def literals (s : List Char) : List (List Char) := Scanner.outside.run s

/-- A reader of values, one after the other. -/
def inTurn {α σ : Type*} : List (σ → α × σ) → σ → List α × σ
  | [], ls => ([], ls)
  | f :: fs, ls => ((f ls).1 :: (inTurn fs (f ls).2).1, (inTurn fs (f ls).2).2)

def labelAlg : Json.Alg Number (List CodePoint) (List (List Char) → Doc × List (List Char)) where
  null ls := (.null, ls)
  bool b ls := (.bool b, ls)
  num _ ls := (.num (ls.headD []), ls.tail)
  str s ls := (.str s, ls)
  arr items ls := (.arr (inTurn items ls).1, (inTurn items ls).2)
  obj fields ls :=
    (.obj ((fields.map Prod.fst).zip (inTurn (fields.map Prod.snd) ls).1), (inTurn (fields.map Prod.snd) ls).2)

/-- The document of a value: each number takes the next literal. -/
def label : Value → List (List Char) → Doc × List (List Char) := Json.fold labelAlg

/-- The first document of a text. -/
def readDoc (s : List Char) : Option Doc := (firstValue s).map fun v => (label v (literals s)).1

/-! ## Reading what was written -/

section Label

/-- Each reader takes what is written for it. -/
theorem inTurn_map {α β σ : Type*} {f : β → List σ → α × List σ} {a : β → α} {b : β → List σ} (rest : List σ) :
    ∀ {l : List β}, (∀ x ∈ l, ∀ rest, f x (b x ++ rest) = (a x, rest)) →
      inTurn (l.map f) (l.flatMap b ++ rest) = (l.map a, rest)
  | [], _ => rfl
  | x :: l, h => by
    obtain ⟨hx, hl⟩ := List.forall_mem_cons.mp h
    rw [List.map_cons, List.flatMap_cons, List.append_assoc, inTurn, hx, inTurn_map rest hl, List.map_cons]

theorem label_arr (items : List Value) (ls : List (List Char)) : label (.arr items) ls =
    (.arr (inTurn (items.map label) ls).1, (inTurn (items.map label) ls).2) :=
  congrFun (Json.fold_arr labelAlg items) ls

theorem label_obj (fields : List (List CodePoint × Value)) (ls : List (List Char)) : label (.obj fields) ls =
    (.obj ((fields.map Prod.fst).zip (inTurn (fields.map fun p => label p.2) ls).1),
      (inTurn (fields.map fun p => label p.2) ls).2) := by
  have hfields := congrFun (Json.fold_obj labelAlg fields) ls
  simp only [labelAlg, List.map_map] at hfields
  exact hfields

theorem numbers_arr (items : List Value) : (Json.arr items).numbers = items.flatMap Json.numbers :=
  (Json.fold_arr Json.numbersAlg items).trans (List.flatMap_def ..).symm

theorem numbers_obj (fields : List (List CodePoint × Value)) :
    (Json.obj fields).numbers = fields.flatMap fun p => p.2.numbers :=
  (Json.fold_obj Json.numbersAlg fields).trans (List.flatMap_map ..)

variable (num : Number → List Char) (g : Number → Number) (h : List CodePoint → List CodePoint)

/-- **Each number gets its literal.** -/
theorem label_map (v : Value) : ∀ rest,
    label (Json.map g h v) (v.numbers.map num ++ rest) = (Json.map num h v, rest) := by
  induction v using Json.induct with
  | null => exact fun rest => rfl
  | bool b => exact fun rest => rfl
  | num n => exact fun rest => rfl
  | str s => exact fun rest => rfl
  | arr items ih =>
    intro rest
    have hitems := inTurn_map (f := fun v => label (Json.map g h v)) (a := Json.map num h) rest ih
    have hmap : (items.map (Json.map g h)).map label = items.map fun v => label (Json.map g h v) := List.map_map
    rw [Json.map_arr, Json.map_arr, label_arr, numbers_arr, List.map_flatMap, hmap, hitems]
  | obj fields ih =>
    intro rest
    have hfields := inTurn_map (f := fun p : List CodePoint × Value => label (Json.map g h p.2))
      (a := fun p => Json.map num h p.2) rest ih
    have hmap : (fields.map (Prod.map h (Json.map g h))).map (fun p => label p.2) =
        fields.map fun p => label (Json.map g h p.2) := List.map_map
    have hzip : ((fields.map (Prod.map h (Json.map g h))).map Prod.fst).zip (fields.map fun p => Json.map num h p.2) =
        fields.map (Prod.map h (Json.map num h)) := by
      rw [List.map_map, List.zip_map']
      rfl
    rw [Json.map_obj, Json.map_obj, label_obj, numbers_obj, List.map_flatMap, hmap, hfields, hzip]

end Label

section Scan

theorem scan_cons (m : Scanner) (c : Char) (s : List Char) : m.run (c :: s) = (m.feed c).1 ++ (m.feed c).2.run s := by
  cases m <;> rfl

/-- The literals that a text gives, whatever follows it in a value. -/
def Gives (l : List Char) (ls : List (List Char)) : Prop :=
  ∀ rest, Ends rest → Scanner.outside.run (l ++ rest) = ls ++ Scanner.outside.run rest

/-- Characters that begin neither a string nor a number. -/
theorem scan_plain : ∀ {l : List Char}, (∀ c ∈ l, Scanner.begin c = .outside) → ∀ rest,
    Scanner.outside.run (l ++ rest) = Scanner.outside.run rest
  | [], _, _ => rfl
  | c :: l, h, rest => by
    obtain ⟨hc, hl⟩ := List.forall_mem_cons.mp h
    have hfeed : Scanner.outside.feed c = ([], .outside) := congrArg (Prod.mk []) hc
    rw [List.cons_append, scan_cons, hfeed, List.nil_append]
    exact scan_plain hl rest

theorem scan_numeric : ∀ (l read rest : List Char), (∀ c ∈ l, isNumeric c = true) →
    (Scanner.literal read).run (l ++ rest) = (Scanner.literal (read ++ l)).run rest
  | [], read, rest, _ => by rw [List.nil_append, List.append_nil]
  | c :: l, read, rest, h => by
    obtain ⟨hc, hl⟩ := List.forall_mem_cons.mp h
    have hfeed : (Scanner.literal read).feed c = ([], .literal (read ++ [c])) := if_pos hc
    rw [List.cons_append, scan_cons, hfeed, List.nil_append, scan_numeric l _ rest hl, List.append_assoc]
    rfl

/-- A literal ends with the text or at the next character. -/
theorem scan_end (read : List Char) {rest : List Char} (h : Ends rest) :
    (Scanner.literal read).run rest = read :: Scanner.outside.run rest := by
  rcases h with rfl | ⟨c, s, rfl, hc⟩
  · rfl
  · have hfeed : (Scanner.literal read).feed c = ([read], .begin c) := by
      rw [Scanner.feed, (not_part hc).2]
      rfl
    rw [scan_cons, scan_cons, hfeed]
    rfl

/-- **The text of a number** is its literal. -/
theorem gives_number {l : List Char} {n : Number} (h : readNumber l = some n) (hnumeric : ∀ c ∈ l, isNumeric c = true) :
    Gives l [l] := by
  intro rest hrest
  cases l with
  | nil => cases h
  | cons c l =>
    have hbegin : Scanner.begin c = .literal [c] := by
      have hc := first_number h
      have hquote : c ≠ '"' := by
        rintro rfl
        rcases hc with hc | hc <;> cases hc
      rw [Scanner.begin, if_neg hquote, if_pos (by simpa using hc)]
    have hfeed : Scanner.outside.feed c = ([], .literal [c]) := congrArg (Prod.mk []) hbegin
    rw [List.cons_append, scan_cons, hfeed, List.nil_append,
      scan_numeric l [c] rest fun d hd => hnumeric d (List.mem_cons_of_mem c hd), scan_end _ hrest]
    rfl

/-- Texts with a comma between them. -/
theorem gives_separated {c : Char} (hc : c ∈ [']', '}']) : ∀ {ls : List (List Char)} {lss : List (List (List Char))},
    List.Forall₂ Gives ls lss → ∀ rest,
      Scanner.outside.run (ls.flatMap (',' :: ·) ++ c :: rest) = lss.flatten ++ Scanner.outside.run rest
  | _, _, .nil, rest => by
    have hbegin : Scanner.begin c = .outside := by
      simp only [List.mem_cons, List.not_mem_nil, or_false] at hc
      rcases hc with rfl | rfl <;> rfl
    exact scan_plain (List.forall_mem_singleton.mpr hbegin) rest
  | l :: ls, found :: lss, .cons hl hls, rest => by
    have hcomma : Scanner.outside.run (',' :: (l ++ (ls.flatMap (',' :: ·) ++ c :: rest))) =
        Scanner.outside.run (l ++ (ls.flatMap (',' :: ·) ++ c :: rest)) := rfl
    rw [List.flatMap_cons, List.cons_append, List.cons_append, List.append_assoc, hcomma,
      hl _ (ends_separated hc ls rest), gives_separated hc hls rest, List.flatten_cons, List.append_assoc]

/-- Texts between brackets. -/
theorem gives_brackets {o c : Char} (ho : Scanner.begin o = .outside) (hc : c ∈ [']', '}']) {ls : List (List Char)}
    {lss : List (List (List Char))} (h : List.Forall₂ Gives ls lss) :
    Gives (o :: separated ',' ls ++ [c]) lss.flatten := by
  intro rest _
  have hopen : ∀ s, Scanner.outside.run (o :: s) = Scanner.outside.run s :=
    scan_plain (List.forall_mem_singleton.mpr ho)
  rw [List.cons_append, List.cons_append, hopen, List.append_assoc]
  cases h with
  | nil => exact gives_separated hc .nil rest
  | @cons l found ls lss hl hls =>
    rw [separated, List.append_assoc, List.singleton_append, hl _ (ends_separated hc ls rest),
      gives_separated hc hls rest, List.flatten_cons, List.append_assoc]

variable {num : Number → List Char} {str : List CodePoint → List Char}

/-- **The text of a value** gives the literals of its numbers, in order. -/
theorem gives_write (hnum : ∀ n, Gives (num n) [num n]) (hstr : ∀ s, Gives (str s) []) (v : Value) :
    Gives (write num str v) (v.numbers.map num) := by
  induction v using Json.induct with
  | null => exact fun rest _ => scan_plain (List.map_eq_replicate_iff.mp rfl) rest
  | bool b =>
    cases b with
    | true => exact fun rest _ => scan_plain (List.map_eq_replicate_iff.mp rfl) rest
    | false => exact fun rest _ => scan_plain (List.map_eq_replicate_iff.mp rfl) rest
  | num n => exact hnum n
  | str s => exact hstr s
  | arr items ih =>
    have hflatten : (Json.arr items : Value).numbers.map num = (items.map fun v => v.numbers.map num).flatten := by
      rw [numbers_arr, List.map_flatMap, List.flatMap_def]
    rw [write_arr, hflatten]
    refine gives_brackets rfl (by decide) ?_
    rw [List.forall₂_map_left_iff, List.forall₂_map_right_iff]
    exact List.forall₂_same.mpr ih
  | obj fields ih =>
    have hflatten : (Json.obj fields : Value).numbers.map num = (fields.map fun p => p.2.numbers.map num).flatten := by
      rw [numbers_obj, List.map_flatMap, List.flatMap_def]
    rw [write_obj, hflatten]
    refine gives_brackets rfl (by decide) ?_
    rw [List.forall₂_map_left_iff, List.forall₂_map_right_iff]
    refine List.forall₂_same.mpr fun p hp rest hrest => ?_
    have hcolon : Scanner.outside.run (':' :: (write num str p.2 ++ rest)) =
        Scanner.outside.run (write num str p.2 ++ rest) := rfl
    rw [List.append_assoc, List.cons_append, hstr p.1 _ (ends_cons (by decide) _), List.nil_append, hcolon,
      ih p hp rest hrest]

end Scan

/-- **The text of a value is read as its document**, with the literals that were written. -/
theorem readDoc_write {num : Number → List Char} {str : List CodePoint → List Char} {g : Number → Number}
    {h : List CodePoint → List CodePoint}
    (hnum : ∀ n, readNumber (num n) = some (g n) ∧ ∀ c ∈ num n, isNumeric c = true)
    (hstr : ∀ s, Spells (str s) (.str (h s)) ∧ Gives (str s) []) (v : Value) :
    readDoc (write num str v) = some (Json.map num h v) := by
  have hread : readText (write num str v) = some (Json.map g h v) :=
    readText_write (fun n => spells_number (hnum n).1 (hnum n).2) (fun s => (hstr s).1) v
  have hliterals := gives_write (fun n => gives_number (hnum n).1 (hnum n).2) (fun s => (hstr s).2) v [] (.inl rfl)
  have hlabel := label_map num g h v []
  have hnil : Scanner.outside.run [] = [] := rfl
  rw [List.append_nil, hnil] at hliterals
  rw [readDoc, firstValue_of_readText hread, Option.map_some, literals, hliterals, hlabel]

end LaManchaland.JsonText
