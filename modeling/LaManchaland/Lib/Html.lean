import Mathlib.Data.List.Basic

/-!
# An HTML tokenizer on marked characters

The tokenizer of the HTML standard for fragments without raw text elements; character references stay as they are
written. Its input are characters with a mark, here whether they come from data, and a character keeps its mark in the
tokens: as text, or in the name or in an attribute of a tag. `Ctl.step` is the state table: each character has one
`Act`, and a `<` is held until the next character decides whether it was text.

What reaches the content, text and attribute values, is counted by `marks`. A character adds at most its own mark
(`marks_feed`), so that the content never has more marks than the input (`marks_run`). Text in which no `<` starts
markup (`safe`) comes out as text (`run_safe`); where one does, a mark is lost for good (`marks_lost`). `Clean` texts
have a fixed sequence of tags and lose no mark, and are closed under concatenation (`Clean.append`).
-/

namespace LaManchaland.Html

/-- A character and whether it comes from data. -/
abbrev Marked := Char × Bool

structure Tag where
  isEnd : Bool
  name : List Marked
  attrs : List (List Marked × List Marked)
  selfClosing : Bool
  deriving DecidableEq

inductive Token where
  | text (c : Marked)
  | tag (t : Tag)
  | comment
  deriving DecidableEq

/-! ## The state table -/

/-- The states of the tokenizer; a doctype and an incorrect comment end at the next `>` alike. -/
inductive Ctl where
  | data
  | tagOpen
  | endTagOpen
  | tagName
  | beforeAttrName
  | attrName
  | afterAttrName
  | beforeAttrValue
  | valueDouble
  | valueSingle
  | valueUnquoted
  | afterValue
  | selfClosing
  | bogusComment
  | markupDecl
  | markupDash
  | commentStart
  | commentStartDash
  | comment
  | commentEndDash
  | commentEnd
  | commentEndBang
  deriving DecidableEq

/-- What happens to a character. -/
inductive Act where
  /-- It is text. -/
  | text
  /-- It is kept until it is known to be text or markup. -/
  | hold
  /-- It is a delimiter. -/
  | drop
  | startTag (isEnd : Bool)
  | tagChar
  | newAttr
  | attrChar
  | valueChar
  | emitTag (selfClosing : Bool)
  | emitComment
  deriving DecidableEq

/-- The white space of the tokenizer. -/
def isWhite (c : Char) : Bool := c = ' ' || c = '\n' || c = '\t' || c = '\r' || c.toNat = 0x0C

/-- What a character does in a state: whether the characters on hold become text, its own act, and the next state. -/
def Ctl.step : Ctl → Char → Bool × Act × Ctl
  | .data, c => if c = '<' then (false, .hold, .tagOpen) else (false, .text, .data)
  | .tagOpen, c =>
    if c.isAlpha then (false, .startTag false, .tagName)
    else if c = '/' then (false, .hold, .endTagOpen)
    else if c = '!' then (false, .drop, .markupDecl)
    else if c = '?' then (false, .drop, .bogusComment)
    else if c = '<' then (true, .hold, .tagOpen)
    else (true, .text, .data)
  | .endTagOpen, c =>
    if c.isAlpha then (false, .startTag true, .tagName)
    else if c = '>' then (false, .drop, .data)
    else (false, .drop, .bogusComment)
  | .tagName, c =>
    if isWhite c then (false, .drop, .beforeAttrName)
    else if c = '/' then (false, .drop, .selfClosing)
    else if c = '>' then (false, .emitTag false, .data)
    else (false, .tagChar, .tagName)
  | .beforeAttrName, c =>
    if isWhite c then (false, .drop, .beforeAttrName)
    else if c = '/' then (false, .drop, .selfClosing)
    else if c = '>' then (false, .emitTag false, .data)
    else (false, .newAttr, .attrName)
  | .attrName, c =>
    if isWhite c then (false, .drop, .afterAttrName)
    else if c = '/' then (false, .drop, .selfClosing)
    else if c = '>' then (false, .emitTag false, .data)
    else if c = '=' then (false, .drop, .beforeAttrValue)
    else (false, .attrChar, .attrName)
  | .afterAttrName, c =>
    if isWhite c then (false, .drop, .afterAttrName)
    else if c = '/' then (false, .drop, .selfClosing)
    else if c = '>' then (false, .emitTag false, .data)
    else if c = '=' then (false, .drop, .beforeAttrValue)
    else (false, .newAttr, .attrName)
  | .beforeAttrValue, c =>
    if isWhite c then (false, .drop, .beforeAttrValue)
    else if c = '"' then (false, .drop, .valueDouble)
    else if c = '\'' then (false, .drop, .valueSingle)
    else if c = '>' then (false, .emitTag false, .data)
    else (false, .valueChar, .valueUnquoted)
  | .valueDouble, c => if c = '"' then (false, .drop, .afterValue) else (false, .valueChar, .valueDouble)
  | .valueSingle, c => if c = '\'' then (false, .drop, .afterValue) else (false, .valueChar, .valueSingle)
  | .valueUnquoted, c =>
    if isWhite c then (false, .drop, .beforeAttrName)
    else if c = '>' then (false, .emitTag false, .data)
    else (false, .valueChar, .valueUnquoted)
  | .afterValue, c =>
    if isWhite c then (false, .drop, .beforeAttrName)
    else if c = '/' then (false, .drop, .selfClosing)
    else if c = '>' then (false, .emitTag false, .data)
    else (false, .newAttr, .attrName)
  | .selfClosing, c =>
    if c = '>' then (false, .emitTag true, .data)
    else if isWhite c then (false, .drop, .beforeAttrName)
    else if c = '/' then (false, .drop, .selfClosing)
    else (false, .newAttr, .attrName)
  | .bogusComment, c => if c = '>' then (false, .emitComment, .data) else (false, .drop, .bogusComment)
  | .markupDecl, c =>
    if c = '-' then (false, .drop, .markupDash)
    else if c = '>' then (false, .emitComment, .data)
    else (false, .drop, .bogusComment)
  | .markupDash, c =>
    if c = '-' then (false, .drop, .commentStart)
    else if c = '>' then (false, .emitComment, .data)
    else (false, .drop, .bogusComment)
  | .commentStart, c =>
    if c = '-' then (false, .drop, .commentStartDash)
    else if c = '>' then (false, .emitComment, .data)
    else (false, .drop, .comment)
  | .commentStartDash, c =>
    if c = '-' then (false, .drop, .commentEnd)
    else if c = '>' then (false, .emitComment, .data)
    else (false, .drop, .comment)
  | .comment, c => if c = '-' then (false, .drop, .commentEndDash) else (false, .drop, .comment)
  | .commentEndDash, c => if c = '-' then (false, .drop, .commentEnd) else (false, .drop, .comment)
  | .commentEnd, c =>
    if c = '>' then (false, .emitComment, .data)
    else if c = '!' then (false, .drop, .commentEndBang)
    else if c = '-' then (false, .drop, .commentEnd)
    else (false, .drop, .comment)
  | .commentEndBang, c =>
    if c = '-' then (false, .drop, .commentEndDash)
    else if c = '>' then (false, .emitComment, .data)
    else (false, .drop, .comment)

/-! ## The machine -/

def emptyTag : Tag := ⟨false, [], [], false⟩

/-- The machine between two characters: the state, the characters on hold and the tag under way. -/
structure Machine where
  ctl : Ctl
  held : List Marked
  tag : Tag
  deriving DecidableEq

/-- The machine at the start, and between texts and tags. -/
def start : Machine := ⟨.data, [], emptyTag⟩

/-- A change of the attribute that was begun last. -/
def Tag.onLast (t : Tag) (f : List Marked × List Marked → List Marked × List Marked) : Tag :=
  { t with attrs := t.attrs.modifyHead f }

/-- The tag under way after an act; its attributes are in reverse order. -/
def Act.onTag (c : Marked) (t : Tag) : Act → Tag
  | .startTag isEnd => ⟨isEnd, [c], [], false⟩
  | .tagChar => { t with name := t.name ++ [c] }
  | .newAttr => { t with attrs := ([c], []) :: t.attrs }
  | .attrChar => t.onLast fun a => (a.1 ++ [c], a.2)
  | .valueChar => t.onLast fun a => (a.1, a.2 ++ [c])
  | .emitTag _ => emptyTag
  | _ => t

/-- The token of an act. -/
def Act.tokens (c : Marked) (t : Tag) : Act → List Token
  | .text => [.text c]
  | .emitTag selfClosing => [.tag { t with attrs := t.attrs.reverse, selfClosing := selfClosing }]
  | .emitComment => [.comment]
  | _ => []

/-- One character: the machine after it and the tokens it completes. -/
def Machine.feed (m : Machine) (c : Marked) : Machine × List Token :=
  let (flush, act, ctl) := m.ctl.step c.1
  ({ ctl := ctl
     held := if act = .hold then (if flush then [] else m.held) ++ [c] else []
     tag := act.onTag c m.tag },
    (if flush then m.held.map .text else []) ++ act.tokens c m.tag)

/-- A text: the machine after it and the tokens it completes. -/
def Machine.run : Machine → List Marked → Machine × List Token
  | m, [] => (m, [])
  | m, c :: s =>
    let (m, toks) := m.feed c
    let (m', toks') := m.run s
    (m', toks ++ toks')

/-- The tokens of a text; at its end the characters on hold are text and a tag under way is lost. -/
def tokens (s : List Marked) : List Token :=
  let (m, toks) := start.run s
  toks ++ m.held.map .text

theorem run_append (m : Machine) (s s' : List Marked) :
    m.run (s ++ s') = (((m.run s).1.run s').1, (m.run s).2 ++ ((m.run s).1.run s').2) := by
  induction s generalizing m with
  | nil => rfl
  | cons c s ih =>
    simp only [List.cons_append, Machine.run, ih, List.append_assoc]

/-! ## The content -/

/-- The number of characters that come from data. -/
def marks (l : List Marked) : Nat := l.countP (·.2)

@[simp] theorem marks_nil : marks [] = 0 := rfl

@[simp] theorem marks_append (l l' : List Marked) : marks (l ++ l') = marks l + marks l' := List.countP_append

theorem marks_cons (c : Marked) (l : List Marked) : marks (c :: l) = marks [c] + marks l := marks_append [c] l

/-- The characters of the attribute values. -/
def Tag.values (t : Tag) : List Marked := t.attrs.flatMap Prod.snd

/-- The characters of a token that are text or in an attribute value. -/
def Token.content : Token → List Marked
  | .text c => [c]
  | .tag t => t.values
  | .comment => []

def content (toks : List Token) : List Marked := toks.flatMap Token.content

@[simp] theorem content_nil : content [] = [] := rfl

@[simp] theorem content_append (toks toks' : List Token) : content (toks ++ toks') = content toks ++ content toks' :=
  List.flatMap_append

@[simp] theorem content_text (s : List Marked) : content (s.map .text) = s := by
  rw [content, List.flatMap_map]
  exact List.flatMap_singleton' s

/-- The characters that are on their way into the content. -/
def Machine.pending (m : Machine) : List Marked := m.held ++ m.tag.values

theorem values_onLast_name (t : Tag) (c : Marked) : (t.onLast fun a => (a.1 ++ [c], a.2)).values = t.values := by
  obtain ⟨isEnd, name, attrs, selfClosing⟩ := t
  cases attrs <;> rfl

theorem marks_onLast_value (t : Tag) (c : Marked) :
    marks (t.onLast fun a => (a.1, a.2 ++ [c])).values ≤ marks t.values + marks [c] := by
  obtain ⟨isEnd, name, attrs, selfClosing⟩ := t
  cases attrs with
  | nil => exact Nat.zero_le _
  | cons a attrs =>
    simp only [Tag.onLast, Tag.values, List.modifyHead_cons, List.flatMap_cons, marks_append]
    omega

theorem marks_reverse_values (t : Tag) (selfClosing : Bool) :
    marks { t with attrs := t.attrs.reverse, selfClosing := selfClosing : Tag }.values = marks t.values := by
  have hperm : (t.attrs.reverse.flatMap Prod.snd).Perm (t.attrs.flatMap Prod.snd) :=
    (List.reverse_perm _).flatMap_right _
  exact hperm.countP_eq _

/-- **A character adds at most its own mark** to the content and to what is on its way there. -/
theorem marks_feed (m : Machine) (c : Marked) :
    marks (content (m.feed c).2) + marks (m.feed c).1.pending ≤ marks m.pending + marks [c] := by
  rcases hstep : m.ctl.step c.1 with ⟨flush, act, ctl⟩
  have hflush : marks (content (if flush then m.held.map .text else [])) ≤ marks m.held := by
    cases flush with
    | true => simp
    | false => simp
  simp only [Machine.feed, hstep, Machine.pending, content_append, marks_append]
  cases act with
  | text =>
    have htext : content (Act.text.tokens c m.tag) = [c] := rfl
    simp only [htext, Act.onTag, reduceCtorEq, if_false, marks_nil]
    omega
  | hold =>
    cases flush with
    | true =>
      simp only [Act.tokens, Act.onTag, if_true, content_text, content_nil, marks_append, marks_nil]
      omega
    | false =>
      simp only [Act.tokens, Act.onTag, if_true, Bool.false_eq_true, if_false, content_nil, marks_append, marks_nil]
      omega
  | attrChar =>
    simp only [Act.tokens, Act.onTag, values_onLast_name, content_nil, marks_nil, reduceCtorEq, if_false]
    omega
  | valueChar =>
    have hvalue := marks_onLast_value m.tag c
    simp only [Act.tokens, Act.onTag, content_nil, marks_nil, reduceCtorEq, if_false]
    omega
  | newAttr =>
    have hvalues : (Act.newAttr.onTag c m.tag).values = m.tag.values := rfl
    simp only [hvalues, Act.tokens, content_nil, marks_nil, reduceCtorEq, if_false]
    omega
  | emitTag selfClosing =>
    have hvalues := marks_reverse_values m.tag selfClosing
    have htag : content (Act.tokens c m.tag (.emitTag selfClosing)) =
      { m.tag with attrs := m.tag.attrs.reverse, selfClosing := selfClosing : Tag }.values := List.append_nil _
    have hempty : (Act.onTag c m.tag (.emitTag selfClosing)).values = [] := rfl
    simp only [htag, hvalues, hempty, marks_nil, reduceCtorEq, if_false]
    omega
  | startTag isEnd =>
    have hvalues : (Act.onTag c m.tag (.startTag isEnd)).values = [] := rfl
    simp only [hvalues, Act.tokens, content_nil, marks_nil, reduceCtorEq, if_false]
    omega
  | emitComment =>
    have hcomment : content (Act.emitComment.tokens c m.tag) = [] := rfl
    simp only [hcomment, Act.onTag, marks_nil, reduceCtorEq, if_false]
    omega
  | drop | tagChar =>
    have hvalues : ∀ name, { m.tag with name := name : Tag }.values = m.tag.values := fun _ => rfl
    simp only [Act.tokens, Act.onTag, hvalues, content_nil, marks_nil, reduceCtorEq, if_false]
    omega

/-- **The content has no more marks than the input.** -/
theorem marks_run : ∀ (s : List Marked) (m : Machine),
    marks (content (m.run s).2) + marks (m.run s).1.pending ≤ marks m.pending + marks s
  | [], m => by simp [Machine.run]
  | c :: s, m => by
    have hfeed := marks_feed m c
    have hrun := marks_run s (m.feed c).1
    rw [marks_cons]
    simp only [Machine.run, content_append, marks_append]
    omega

/-! ## Text -/

/-- The characters that begin markup after a `<`. -/
def opens (c : Char) : Bool := c.isAlpha || c = '/' || c = '!' || c = '?'

/-- No `<` in the text begins markup. -/
def safe : List Char → Bool
  | c :: d :: s => !(c = '<' && opens d) && safe (d :: s)
  | _ => true

/-- The machine after a text, with a `<` on hold when the text ends with one. -/
def afterText (d : Marked) : Machine := if d.1 = '<' then ⟨.tagOpen, [d], emptyTag⟩ else start

/-- A character that is on hold after it, and a character that is not. -/
def heldText (d : Marked) : List Token := if d.1 = '<' then [.text d] else []

def doneText (d : Marked) : List Token := if d.1 = '<' then [] else [.text d]

theorem doneText_heldText (d : Marked) : doneText d ++ heldText d = [.text d] := by
  by_cases hd : d.1 = '<' <;> simp [doneText, heldText, hd]

/-- A character of a text that begins no markup. -/
theorem feed_afterText {b d : Marked} (h : ¬(b.1 = '<' ∧ opens d.1 = true)) :
    (afterText b).feed d = (afterText d, heldText b ++ doneText d) := by
  by_cases hb : b.1 = '<'
  · have hd : opens d.1 = false := by simpa [hb] using h
    simp only [opens, Bool.or_eq_false_iff, decide_eq_false_iff_not] at hd
    obtain ⟨⟨⟨halpha, hslash⟩, hbang⟩, hquestion⟩ := hd
    by_cases hlt : d.1 = '<'
    · simp [afterText, hb, hlt, heldText, doneText, Machine.feed, Ctl.step, Act.tokens, Act.onTag]
    · simp [afterText, hb, hlt, heldText, doneText, Machine.feed, Ctl.step, Act.tokens, Act.onTag, halpha, hslash,
        hbang, hquestion, start]
  · by_cases hlt : d.1 = '<' <;>
      simp [afterText, hb, hlt, heldText, doneText, Machine.feed, Ctl.step, Act.tokens, Act.onTag, start]

theorem safe_cons {c d : Char} {s : List Char} :
    safe (c :: d :: s) = true ↔ ¬(c = '<' ∧ opens d = true) ∧ safe (d :: s) = true := by
  rw [safe, Bool.and_eq_true, Bool.not_eq_true', Bool.and_eq_false_iff]
  by_cases hc : c = '<' <;> simp [hc]

/-- A character that begins no markup may follow a safe text. -/
theorem safe_append {d : Char} (hd : opens d = false) : ∀ {s : List Char}, safe s = true → safe (s ++ [d]) = true
  | [], _ => rfl
  | [_], _ => safe_cons.mpr ⟨fun h => Bool.false_ne_true (hd.symm.trans h.2), rfl⟩
  | _ :: _ :: _, h => safe_cons.mpr ⟨(safe_cons.mp h).1, safe_append hd (safe_cons.mp h).2⟩

theorem run_afterText : ∀ (s : List Marked) (b d : Marked), safe ((b :: (s ++ [d])).map Prod.fst) = true →
    (afterText b).run (s ++ [d]) = (afterText d, heldText b ++ s.map .text ++ doneText d)
  | [], b, d, h => by
    rw [List.nil_append, List.map_cons, List.map_cons, safe_cons] at h
    simp only [List.nil_append, Machine.run, feed_afterText h.1, List.map_nil, List.append_nil]
  | c :: s, b, d, h => by
    rw [List.cons_append, List.map_cons, List.map_cons, safe_cons] at h
    have ih := run_afterText s c d h.2
    simp only [List.cons_append, Machine.run, feed_afterText h.1, ih, List.map_cons]
    rw [← List.singleton_append, ← doneText_heldText c]
    simp only [List.append_assoc]

/-- **A safe text is text**, except for a `<` at its end. -/
theorem run_safe {s : List Marked} {d : Marked} (h : safe ((s ++ [d]).map Prod.fst) = true) :
    start.run (s ++ [d]) = (afterText d, s.map .text ++ doneText d) := by
  have hblank : safe (((' ', false) :: (s ++ [d])).map Prod.fst) = true := by
    cases s with
    | nil => exact safe_cons.mpr ⟨by simp, h⟩
    | cons c s => exact safe_cons.mpr ⟨by simp, h⟩
  exact run_afterText s (' ', false) d hblank

/-- A text without a `<` is text. -/
theorem run_plain {s : List Marked} (h : ∀ c ∈ s, c.1 ≠ '<') : start.run s = (start, s.map .text) := by
  induction s with
  | nil => rfl
  | cons c s ih =>
    have hc : c.1 ≠ '<' := h c List.mem_cons_self
    have hfeed : start.feed c = (start, [.text c]) := by
      have := feed_afterText (b := (' ', false)) (d := c) (by simp)
      simpa [afterText, heldText, doneText, hc] using this
    simp only [Machine.run, hfeed, ih fun d hd => h d (List.mem_cons_of_mem _ hd), List.map_cons, List.singleton_append]

/-- Data in a quoted attribute value stay in it. -/
theorem run_valueDouble {name : List Marked} {isEnd selfClosing : Bool} {attr : List Marked}
    {attrs : List (List Marked × List Marked)} : ∀ {s value : List Marked}, (∀ c ∈ s, c.1 ≠ '"') →
    Machine.run ⟨.valueDouble, [], ⟨isEnd, name, (attr, value) :: attrs, selfClosing⟩⟩ s =
      (⟨.valueDouble, [], ⟨isEnd, name, (attr, value ++ s) :: attrs, selfClosing⟩⟩, [])
  | [], value, _ => by rw [List.append_nil]; rfl
  | c :: s, value, h => by
    have hc : c.1 ≠ '"' := h c List.mem_cons_self
    have ih := @run_valueDouble name isEnd selfClosing attr attrs s (value ++ [c])
      fun d hd => h d (List.mem_cons_of_mem _ hd)
    rw [List.append_assoc, List.singleton_append] at ih
    simp only [Machine.run, Machine.feed, Ctl.step, hc, if_false, Act.onTag, Tag.onLast, List.modifyHead_cons,
      Act.tokens, reduceCtorEq, Bool.false_eq_true, List.append_nil, ih]

/-! ## Texts between texts and tags -/

/-- A text that leaves no tag and no `<` open, with its tokens. -/
def Closed (s : List Marked) (toks : List Token) : Prop := start.run s = (start, toks)

theorem Closed.append {s s' : List Marked} {toks toks' : List Token} (h : Closed s toks) (h' : Closed s' toks') :
    Closed (s ++ s') (toks ++ toks') := by
  rw [Closed, run_append, h]
  simp only [show start.run s' = (start, toks') from h']

theorem Closed.tokens {s : List Marked} {toks : List Token} (h : Closed s toks) : tokens s = toks := by
  rw [Html.tokens, show start.run s = (start, toks) from h]
  exact List.append_nil toks

/-- A safe text that does not end with a `<`. -/
theorem closed_safe {s : List Marked} {d : Marked} (h : safe ((s ++ [d]).map Prod.fst) = true) (hd : d.1 ≠ '<') :
    Closed (s ++ [d]) ((s ++ [d]).map .text) := by
  rw [Closed, run_safe h, afterText, doneText, if_neg hd, if_neg hd, List.map_append]
  rfl

/-- What characters without marks add to the content has no marks. -/
theorem unmarked_run {s : List Marked} (hs : ∀ c ∈ s, c.2 = false) :
    (content (start.run s).2).filter (·.2) = [] := by
  have hrun := marks_run s start
  have hmarks : marks s = 0 := List.countP_eq_zero.mpr fun c hc => by simp [hs c hc]
  rw [hmarks] at hrun
  have hzero : marks (content (start.run s).2) = 0 := Nat.eq_zero_of_le_zero (Nat.le_of_add_right_le hrun)
  exact List.length_eq_zero_iff.mp (List.countP_eq_length_filter.symm.trans hzero)

/-- A tag without the data in its attribute values; texts are left out. -/
def Token.skeleton : Token → Option Token
  | .text _ => none
  | .tag t => some (.tag { t with attrs := t.attrs.map fun a => (a.1, a.2.filter (!·.2)) })
  | .comment => some .comment

/-- The sequence of tags and attributes. -/
def skeleton (toks : List Token) : List Token := toks.filterMap Token.skeleton

@[simp] theorem skeleton_append (toks toks' : List Token) :
    skeleton (toks ++ toks') = skeleton toks ++ skeleton toks' :=
  List.filterMap_append

@[simp] theorem skeleton_text (s : List Marked) : skeleton (s.map .text) = [] := by
  rw [skeleton, List.filterMap_map]
  exact List.filterMap_eq_nil_iff.mpr fun _ _ => rfl

/-- A text between texts and tags with the tags of the skeleton `sk`, whose data all get into the content. -/
def Clean (s : List Marked) (sk : List Token) : Prop :=
  ∃ toks, Closed s toks ∧ skeleton toks = sk ∧ (content toks).filter (·.2) = s.filter (·.2)

theorem clean_nil : Clean [] [] := ⟨[], rfl, rfl, rfl⟩

theorem Clean.append {s s' : List Marked} {sk sk' : List Token} (h : Clean s sk) (h' : Clean s' sk') :
    Clean (s ++ s') (sk ++ sk') := by
  obtain ⟨toks, hclosed, rfl, hcontent⟩ := h
  obtain ⟨toks', hclosed', rfl, hcontent'⟩ := h'
  refine ⟨toks ++ toks', hclosed.append hclosed', skeleton_append toks toks', ?_⟩
  rw [content_append, List.filter_append, List.filter_append, hcontent, hcontent']

/-- A text that comes out as text. -/
theorem clean_text {s : List Marked} (h : Closed s (s.map .text)) : Clean s [] :=
  ⟨s.map .text, h, skeleton_text s, by rw [content_text]⟩

theorem clean_plain {s : List Marked} (h : ∀ c ∈ s, c.1 ≠ '<') : Clean s [] := clean_text (run_plain h)

/-- A text without data. -/
theorem clean_unmarked {s : List Marked} (h : (start.run s).1 = start) (hs : ∀ c ∈ s, c.2 = false) :
    Clean s (skeleton (start.run s).2) := by
  have hdata : s.filter (·.2) = [] := List.filter_eq_nil_iff.mpr fun c hc => by simp [hs c hc]
  exact ⟨_, Prod.ext h rfl, rfl, by rw [unmarked_run hs, hdata]⟩

/-- The tokens of a clean text. -/
theorem Clean.tokens {s : List Marked} {sk : List Token} (h : Clean s sk) :
    skeleton (tokens s) = sk ∧ (content (tokens s)).filter (·.2) = s.filter (·.2) := by
  obtain ⟨toks, hclosed, hsk, hcontent⟩ := h
  rw [hclosed.tokens]
  exact ⟨hsk, hcontent⟩

/-! ## Markup in data -/

/-- The first `<` of an unsafe text that begins markup. -/
theorem exists_opens : ∀ {s : List Marked}, safe (s.map Prod.fst) = false →
    ∃ p lt c q, s = p ++ lt :: c :: q ∧ lt.1 = '<' ∧ opens c.1 = true ∧ safe ((p ++ [lt]).map Prod.fst) = true
  | [], h => by cases h
  | [_], h => by cases h
  | b :: c :: s, h => by
    by_cases hbc : b.1 = '<' ∧ opens c.1 = true
    · exact ⟨[], b, c, s, rfl, hbc.1, hbc.2, rfl⟩
    · have htail : safe ((c :: s).map Prod.fst) = false := by
        rw [← Bool.not_eq_true, List.map_cons, List.map_cons, safe_cons] at h
        exact Bool.not_eq_true _ ▸ fun htail => h ⟨hbc, htail⟩
      obtain ⟨p, lt, c', q, hs, hlt, hc', hsafe⟩ := exists_opens htail
      refine ⟨b :: p, lt, c', q, by rw [hs]; rfl, hlt, hc', ?_⟩
      cases p with
      | nil =>
        obtain ⟨rfl, -⟩ := List.cons.inj hs
        exact safe_cons.mpr ⟨hbc, rfl⟩
      | cons d p =>
        obtain ⟨rfl, -⟩ := List.cons.inj hs
        exact safe_cons.mpr ⟨hbc, hsafe⟩

/-- A character after which nothing is on its way into the content. -/
theorem marks_run_of_lost {m : Machine} {c : Marked} (htoks : (m.feed c).2 = []) (hpending : (m.feed c).1.pending = [])
    (s : List Marked) : marks (content (m.run (c :: s)).2) + marks (m.run (c :: s)).1.pending ≤ marks s := by
  have hrun := marks_run s (m.feed c).1
  simp only [Machine.run, htoks, List.nil_append]
  rw [hpending, marks_nil] at hrun
  omega

/-- **A `<` that begins markup is lost**, whatever follows. -/
theorem marks_opened {lt c d : Marked} (hc : opens c.1 = true) (s : List Marked) :
    marks (content (Machine.run ⟨.tagOpen, [lt], emptyTag⟩ (c :: d :: s)).2) +
        marks (Machine.run ⟨.tagOpen, [lt], emptyTag⟩ (c :: d :: s)).1.pending ≤ marks (c :: d :: s) := by
  have hsplit := marks_cons c (d :: s)
  have hsplit' := marks_cons d s
  by_cases hslash : c.1 = '/'
  · -- The slash is on hold, too, and the next character decides about both.
    have hfeed : Machine.feed ⟨.tagOpen, [lt], emptyTag⟩ c = (⟨.endTagOpen, [lt, c], emptyTag⟩, []) := by
      simp [Machine.feed, Ctl.step, hslash, Act.tokens, Act.onTag]
    have hlost : (Machine.feed ⟨.endTagOpen, [lt, c], emptyTag⟩ d).2 = [] ∧
        (Machine.feed ⟨.endTagOpen, [lt, c], emptyTag⟩ d).1.pending = [] := by
      by_cases halpha : d.1.isAlpha = true
      · simp [Machine.feed, Ctl.step, halpha, Act.tokens, Act.onTag, Machine.pending, Tag.values]
      · by_cases hgt : d.1 = '>' <;>
          simp [Machine.feed, Ctl.step, halpha, hgt, Act.tokens, Act.onTag, Machine.pending, Tag.values, emptyTag]
    have hrun := marks_run_of_lost hlost.1 hlost.2 s
    rw [Machine.run, hfeed]
    simp only [List.nil_append]
    omega
  · have hlost : (Machine.feed ⟨.tagOpen, [lt], emptyTag⟩ c).2 = [] ∧
        (Machine.feed ⟨.tagOpen, [lt], emptyTag⟩ c).1.pending = [] := by
      by_cases halpha : c.1.isAlpha = true
      · simp [Machine.feed, Ctl.step, halpha, Act.tokens, Act.onTag, Machine.pending, Tag.values]
      · have hother : c.1 = '!' ∨ c.1 = '?' := by
          simpa [opens, halpha, hslash] using hc
        rcases hother with hc | hc <;>
          simp [Machine.feed, Ctl.step, hc, Act.tokens, Act.onTag, Machine.pending, Tag.values, emptyTag]
    have hrun := marks_run_of_lost hlost.1 hlost.2 (d :: s)
    omega

/-- The content of the tokens of a text. -/
theorem marks_tokens_le (s : List Marked) :
    marks (content (tokens s)) ≤ marks (content (start.run s).2) + marks (start.run s).1.pending := by
  simp only [tokens, content_append, content_text, marks_append, Machine.pending]
  omega

/-- **Unsafe data lose a mark**: a marked text with a `<` that begins markup, met between texts and tags and followed by
something, does not get into the content as a whole. -/
theorem marks_lost {a s r : List Marked} {d : Marked} (ha : (start.run a).1 = start)
    (hs : safe (s.map Prod.fst) = false) (hmark : ∀ c ∈ s, c.2 = true) :
    marks (content (tokens (a ++ s ++ d :: r))) < marks (a ++ s ++ d :: r) := by
  obtain ⟨p, lt, c, q, rfl, hlt, hc, hsafe⟩ := exists_opens hs
  have hltmark : marks [lt] = 1 := by
    simp [marks, hmark lt (by simp)]
  have hprefix : (start.run (p ++ [lt])) = (⟨.tagOpen, [lt], emptyTag⟩, p.map .text) := by
    rw [run_safe hsafe, afterText, doneText, if_pos hlt, if_pos hlt, List.append_nil]
  have hwhole : a ++ (p ++ lt :: c :: q) ++ d :: r = (a ++ (p ++ [lt])) ++ c :: (q ++ d :: r) := by simp
  obtain ⟨e, t, het⟩ : ∃ e t, q ++ d :: r = e :: t := by
    cases q with
    | nil => exact ⟨d, r, rfl⟩
    | cons e q => exact ⟨e, _, rfl⟩
  have hstart := marks_run a start
  have hopened := @marks_opened lt c e hc t
  refine Nat.lt_of_le_of_lt (marks_tokens_le _) ?_
  rw [hwhole, het, run_append, run_append, ha, hprefix]
  have hpend : marks start.pending = 0 := rfl
  have hp : marks (p ++ [lt]) = marks p + 1 := by rw [marks_append, hltmark]
  simp only [content_append, content_text, marks_append, hltmark]
  omega

end LaManchaland.Html
