import Mathlib.Data.List.Basic
import Mathlib.Data.List.Infix

/-!
# The read loop of the chat

`sendChatMessage` reads the answer of the model as server-sent events: it splits every chunk that the reader returns at
the line breaks, and adds the text of each line that is a data line by itself. What `JSON.parse` gives for a text is a
parameter; everything below holds whatever it is.

A line that is cut by the end of a chunk is read as two lines. `chunkFree_iff`: the outcome for a text is the same for
all ways of cutting it exactly when no part of the text, read as a line, adds anything; for when it is cut into single
characters, nothing is added (`readLoop_singletons`). Chunks that end with their lines and do not stop give what the
whole text gives (`readLoop_aligned`).
-/

namespace LaManchaland.Ui

/-! ## JavaScript values -/

/-- A value of `JSON.parse`; of a number, whether it is truthy and how it is written. -/
inductive Json where
  | null
  | bool (b : Bool)
  | num (truthy : Bool) (text : List Char)
  | str (s : List Char)
  | arr (xs : List Json)
  | obj (fields : List (String × Json))

namespace Json

def isNull : Json → Bool
  | .null => true
  | _ => false

def truthy : Json → Bool
  | .null => false
  | .bool b => b
  | .num t _ => t
  | .str s => !s.isEmpty
  | .arr _ => true
  | .obj _ => true

mutual

/-- The conversion to a string of `+=`. -/
def toText : Json → List Char
  | .null => "null".toList
  | .bool b => if b then "true".toList else "false".toList
  | .num _ text => text
  | .str s => s
  | .arr xs => arrText xs
  | .obj _ => "[object Object]".toList

def arrText : List Json → List Char
  | [] => []
  | x :: xs => (if x.isNull then [] else x.toText) ++ (if xs.isEmpty then [] else ',' :: arrText xs)

end

/-- A property; `none` is `undefined`. -/
def get (name : String) : Json → Option Json
  | .obj fields => (fields.find? fun f => f.1 = name).map Prod.snd
  | _ => none

/-- `[0]`. -/
def item0 : Json → Option Json
  | .arr xs => xs.head?
  | .str s => s.head?.map fun c => .str [c]
  | v => v.get "0"

/-- `?.`: nothing is read of `undefined` and of `null`. -/
def chain (f : Json → Option Json) : Option Json → Option Json
  | none => none
  | some v => if v.isNull then none else f v

end Json

/-! ## The loop -/

/-- White space and line terminators of `trim`. -/
def isSpace (c : Char) : Bool :=
  c.toNat ∈ [0x09, 0x0A, 0x0B, 0x0C, 0x0D, 0x20, 0xA0, 0x1680, 0x2000, 0x2001, 0x2002, 0x2003, 0x2004, 0x2005, 0x2006,
    0x2007, 0x2008, 0x2009, 0x200A, 0x2028, 0x2029, 0x202F, 0x205F, 0x3000, 0xFEFF]

def trim (s : List Char) : List Char := ((s.dropWhile isSpace).reverse.dropWhile isSpace).reverse

def dataPrefix : List Char := "data:".toList

def doneMarker : List Char := "[DONE]".toList

/-- `fullText`, and the text of the reasoning block. -/
structure Answer where
  fullText : List Char
  reasoning : List Char
  deriving DecidableEq

/-- What `JSON.parse` gives; `none` is an exception. -/
abbrev Parse := List Char → Option Json

/-- `data.choices?.[0]?.delta`, of a value that is not `null`. -/
def delta (data : Json) : Option Json := Json.chain (Json.get "delta") (Json.chain Json.item0 (data.get "choices"))

/-- The text of a truthy property of the delta. -/
def deltaText (name : String) (d : Option Json) : List Char :=
  match Json.chain (Json.get name) d with
  | some v => if v.truthy then v.toText else []
  | none => []

/-- The `try` block; an exception is skipped. The assignment after `fullText +=` always throws, and the loop has then
added both texts. -/
def addData (data : Option Json) (a : Answer) : Answer :=
  match data with
  | none => a
  | some data =>
    if data.isNull then a
    else
      { a with
        reasoning := a.reasoning ++ deltaText "reasoning_content" (delta data)
        fullText := a.fullText ++ deltaText "content" (delta data) }

/-- The inner loop over the lines of a chunk. -/
def readLines (parse : Parse) : List (List Char) → Answer → Answer
  | [], a => a
  | line :: lines, a =>
    let trimmed := trim line
    if ¬dataPrefix <+: trimmed then readLines parse lines a
    else
      let dataStr := trim (trimmed.drop 5)
      if dataStr = doneMarker then a
      else if dataStr = [] then readLines parse lines a
      else readLines parse lines (addData (parse dataStr) a)

def readChunk (parse : Parse) (a : Answer) (chunk : List Char) : Answer :=
  readLines parse (chunk.splitOn '\n') a

/-- The loop over the chunks of the reader. -/
def readLoop (parse : Parse) (chunks : List (List Char)) : Answer := chunks.foldl (readChunk parse) ⟨[], []⟩

/-! ## What a line adds -/

/-- The data of a line, when it is a data line. -/
def lineData (line : List Char) : Option (List Char) :=
  if dataPrefix <+: trim line then some (trim ((trim line).drop 5)) else none

/-- The line is the `[DONE]` marker. -/
def Stops (line : List Char) : Prop := lineData line = some doneMarker

instance (line : List Char) : Decidable (Stops line) := inferInstanceAs (Decidable (_ = _))

/-- What a line adds to an answer. -/
def lineAdds (parse : Parse) (line : List Char) : Answer :=
  match lineData line with
  | none => ⟨[], []⟩
  | some data => if data = doneMarker ∨ data = [] then ⟨[], []⟩ else addData (parse data) ⟨[], []⟩

def Answer.append (a b : Answer) : Answer := ⟨a.fullText ++ b.fullText, a.reasoning ++ b.reasoning⟩

section Lines

variable {parse : Parse} {a b : Answer} {line : List Char} {lines : List (List Char)}

@[simp] theorem Answer.append_nil (a : Answer) : a.append ⟨[], []⟩ = a := by
  simp [Answer.append]

theorem addData_append (data : Option Json) (a : Answer) : addData data a = a.append (addData data ⟨[], []⟩) := by
  cases data with
  | none => simp [addData]
  | some data => cases h : data.isNull <;> simp [addData, h, Answer.append]

theorem readLines_lineData (line : List Char) (lines : List (List Char)) (a : Answer) :
    readLines parse (line :: lines) a =
      match lineData line with
      | none => readLines parse lines a
      | some data =>
        if data = doneMarker then a
        else if data = [] then readLines parse lines a
        else readLines parse lines (addData (parse data) a) := by
  rw [readLines]
  by_cases hp : dataPrefix <+: trim line
  · rw [if_neg (not_not.mpr hp), lineData, if_pos hp]
  · rw [if_pos hp, lineData, if_neg hp]

/-- **The loop, line by line.** -/
theorem readLines_cons (line : List Char) (lines : List (List Char)) (a : Answer) :
    readLines parse (line :: lines) a =
      if Stops line then a else readLines parse lines (a.append (lineAdds parse line)) := by
  rw [readLines_lineData]
  cases hl : lineData line with
  | none =>
    have hno : ¬Stops line := by simp [Stops, hl]
    rw [if_neg hno, lineAdds, hl, Answer.append_nil]
  | some data =>
    have hstops : Stops line ↔ data = doneMarker := by simp [Stops, hl]
    by_cases hd : data = doneMarker
    · rw [if_pos (hstops.mpr hd)]
      exact if_pos hd
    · rw [if_neg fun h => hd (hstops.mp h), lineAdds, hl]
      by_cases he : data = []
      · simp only [he, or_true, if_true, Answer.append_nil]
        exact if_neg (by decide)
      · simp only [hd, he, or_self, if_false]
        rw [← addData_append]

/-- The marker adds nothing. -/
theorem lineAdds_stops (h : Stops line) : lineAdds parse line = ⟨[], []⟩ := by
  have h : lineData line = some doneMarker := h
  rw [lineAdds, h]
  exact if_pos (.inl rfl)

/-- Lines that add nothing leave the answer as it is. -/
theorem readLines_inert (h : ∀ line ∈ lines, lineAdds parse line = ⟨[], []⟩) (a : Answer) :
    readLines parse lines a = a := by
  induction lines generalizing a with
  | nil => rfl
  | cons line lines ih =>
    rw [readLines_cons, h line List.mem_cons_self, Answer.append_nil,
      ih (fun l hl => h l (List.mem_cons_of_mem _ hl)) a]
    exact ite_self a

/-- A chunk with one line adds that line. -/
theorem readLines_single (line : List Char) (a : Answer) :
    readLines parse [line] a = a.append (lineAdds parse line) := by
  rw [readLines_cons]
  by_cases h : Stops line
  · rw [if_pos h, lineAdds_stops h, Answer.append_nil]
  · rw [if_neg h]
    rfl

/-- Without a marker among them, lines can be read in two parts. -/
theorem readLines_append {ls ms : List (List Char)} (h : ∀ line ∈ ls, ¬Stops line) (a : Answer) :
    readLines parse (ls ++ ms) a = readLines parse ms (readLines parse ls a) := by
  induction ls generalizing a with
  | nil => rfl
  | cons line ls ih =>
    have hl := h line List.mem_cons_self
    rw [List.cons_append, readLines_cons, readLines_cons, if_neg hl, if_neg hl,
      ih fun l hm => h l (List.mem_cons_of_mem _ hm)]

theorem length_trim_le (s : List Char) : (trim s).length ≤ s.length := by
  rw [trim, List.length_reverse]
  calc ((s.dropWhile isSpace).reverse.dropWhile isSpace).length
      ≤ (s.dropWhile isSpace).reverse.length := (List.dropWhile_sublist _).length_le
    _ = (s.dropWhile isSpace).length := List.length_reverse
    _ ≤ s.length := (List.dropWhile_sublist _).length_le

/-- A line that is shorter than the prefix adds nothing. -/
theorem lineAdds_short (h : line.length < 5) : lineAdds parse line = ⟨[], []⟩ := by
  have hno : ¬dataPrefix <+: trim line := by
    intro hp
    have hle : 5 ≤ (trim line).length := hp.length_le
    have htrim := length_trim_le line
    omega
  rw [lineAdds, lineData, if_neg hno]

end Lines

/-! ## Ways of cutting -/

/-- The lines of a text: the first begins it, and all are parts of it without separators. -/
theorem splitOn_eq {α : Type*} [DecidableEq α] {x : α} : ∀ xs : List α, ∃ h t, xs.splitOn x = h :: t ∧
    h <+: xs ∧ x ∉ h ∧ ∀ l ∈ t, l <:+: xs ∧ x ∉ l
  | [] => ⟨[], [], rfl, List.nil_prefix, List.not_mem_nil, fun l hl => absurd hl List.not_mem_nil⟩
  | y :: xs => by
    obtain ⟨h, t, he, hp, hx, ht⟩ := splitOn_eq (x := x) xs
    rw [List.splitOn] at he ⊢
    rw [List.splitOnP_cons_eq_if_modifyHead, he]
    by_cases hy : y = x
    · refine ⟨[], h :: t, by simp [hy], List.nil_prefix, List.not_mem_nil, fun l hl => ?_⟩
      rcases List.mem_cons.mp hl with rfl | hl
      · exact ⟨List.infix_cons hp.isInfix, hx⟩
      · exact ⟨List.infix_cons (ht l hl).1, (ht l hl).2⟩
    · refine ⟨y :: h, t, by simp [hy], List.cons_prefix_cons.mpr ⟨rfl, hp⟩, ?_, fun l hl => ?_⟩
      · rw [List.mem_cons, not_or]
        exact ⟨fun hxy => hy hxy.symm, hx⟩
      · exact ⟨List.infix_cons (ht l hl).1, (ht l hl).2⟩

/-- A line of a text is a part of it without line breaks. -/
theorem mem_splitOn {α : Type*} [DecidableEq α] {x : α} {xs l : List α} (hl : l ∈ xs.splitOn x) :
    l <:+: xs ∧ x ∉ l := by
  obtain ⟨h, t, he, hp, hx, ht⟩ := splitOn_eq (x := x) xs
  rw [he] at hl
  rcases List.mem_cons.mp hl with rfl | hl
  · exact ⟨hp.isInfix, hx⟩
  · exact ht l hl

/-- The outcome for a text is the same for all ways of cutting it into chunks. -/
def ChunkFree (parse : Parse) (text : List Char) : Prop :=
  ∀ chunks chunks' : List (List Char), chunks.flatten = text → chunks'.flatten = text →
    readLoop parse chunks = readLoop parse chunks'

/-- No part of a text between line breaks adds anything when it is read as a line. -/
def Inert (parse : Parse) (text : List Char) : Prop :=
  ∀ part, part <:+: text → '\n' ∉ part → lineAdds parse part = ⟨[], []⟩

section Chunks

variable {parse : Parse} {text : List Char} {chunks : List (List Char)}

/-- Chunks whose lines add nothing leave the answer as it is. -/
theorem foldl_inert (h : ∀ chunk ∈ chunks, ∀ line ∈ chunk.splitOn '\n', lineAdds parse line = ⟨[], []⟩) (a : Answer) :
    chunks.foldl (readChunk parse) a = a := by
  induction chunks generalizing a with
  | nil => rfl
  | cons chunk chunks ih =>
    have hchunk : readChunk parse a chunk = a := readLines_inert (h chunk List.mem_cons_self) a
    rw [List.foldl_cons, hchunk]
    exact ih (fun c hc => h c (List.mem_cons_of_mem _ hc)) a

/-- The text in chunks of one character. -/
def singletons (text : List Char) : List (List Char) := text.map fun c => [c]

theorem flatten_singletons (text : List Char) : (singletons text).flatten = text := by
  induction text with
  | nil => rfl
  | cons c text ih =>
    show [c] ++ (singletons text).flatten = c :: text
    rw [ih]
    rfl

/-- Single characters add nothing. -/
theorem foldl_singletons (text : List Char) (a : Answer) : (singletons text).foldl (readChunk parse) a = a := by
  refine foldl_inert (fun chunk hc line hl => lineAdds_short ?_) a
  obtain ⟨c, _, rfl⟩ := List.mem_map.mp hc
  have hle : line.length ≤ 1 := (mem_splitOn hl).1.length_le
  omega

/-- **A text that is cut into single characters adds nothing.** -/
theorem readLoop_singletons (text : List Char) : readLoop parse (singletons text) = ⟨[], []⟩ :=
  foldl_singletons text _

/-- An inert text adds nothing, however it is cut. -/
theorem readLoop_inert (h : Inert parse text) (hc : chunks.flatten = text) : readLoop parse chunks = ⟨[], []⟩ := by
  refine foldl_inert (fun chunk hchunk line hl => ?_) _
  obtain ⟨hline, hn⟩ := mem_splitOn hl
  have hpart : chunk <:+: text := by
    rw [← hc]
    exact List.infix_of_mem_flatten hchunk
  exact h line (hline.trans hpart) hn

/-- A part that is a chunk of its own, between single characters, adds what it adds as a line. -/
theorem readLoop_part {pre part post : List Char} (hn : '\n' ∉ part) :
    readLoop parse (singletons pre ++ part :: singletons post) = lineAdds parse part := by
  have hline : part.splitOn '\n' = [part] :=
    List.splitOnP_eq_singleton fun c hc => by simpa using ne_of_mem_of_not_mem hc hn
  rw [readLoop, List.foldl_append, foldl_singletons, List.foldl_cons, foldl_singletons, readChunk, hline,
    readLines_single]
  simp [Answer.append]

theorem inert_of_chunkFree (h : ChunkFree parse text) : Inert parse text := by
  rintro part ⟨pre, post, rfl⟩ hn
  have hflat : (singletons pre ++ part :: singletons post).flatten = pre ++ part ++ post := by
    rw [List.flatten_append, List.flatten_cons, flatten_singletons, flatten_singletons, List.append_assoc]
  have hsame := h _ _ hflat (flatten_singletons _)
  rwa [readLoop_part hn, readLoop_singletons] at hsame

/-- **The exact condition for the outcome not to depend on the chunks**: the text is inert. -/
theorem chunkFree_iff (parse : Parse) (text : List Char) : ChunkFree parse text ↔ Inert parse text := by
  constructor
  · exact inert_of_chunkFree
  · intro h chunks chunks' hc hc'
    rw [readLoop_inert h hc, readLoop_inert h hc']

theorem readChunk_nil (a : Answer) : readChunk parse a [] = a := by
  show readLines parse [[]] a = a
  have hadds : lineAdds parse [] = ⟨[], []⟩ := lineAdds_short (by decide)
  rw [readLines_single, hadds, Answer.append_nil]

/-- Chunks that end with their lines and have no marker are read as one. -/
theorem foldl_aligned (hend : ∀ chunk ∈ chunks, ∃ body, chunk = body ++ ['\n'])
    (hstop : ∀ chunk ∈ chunks, ∀ line ∈ chunk.splitOn '\n', ¬Stops line) (a : Answer) :
    chunks.foldl (readChunk parse) a = readChunk parse a chunks.flatten := by
  induction chunks generalizing a with
  | nil => exact (readChunk_nil a).symm
  | cons chunk chunks ih =>
    obtain ⟨body, rfl⟩ := hend _ List.mem_cons_self
    have hsplit : ∀ rest : List Char, (body ++ '\n' :: rest).splitOn '\n' = body.splitOn '\n' ++ rest.splitOn '\n' :=
      fun rest => List.splitOnP_append_cons body rest rfl
    have hbody : ∀ line ∈ body.splitOn '\n', ¬Stops line := by
      intro line hl
      refine hstop _ List.mem_cons_self line ?_
      rw [hsplit []]
      exact List.mem_append_left _ hl
    have hread : ∀ rest, readChunk parse a (body ++ '\n' :: rest) =
        readChunk parse (readLines parse (body.splitOn '\n') a) rest := by
      intro rest
      rw [readChunk, hsplit, readLines_append hbody]
      rfl
    have hchunk : readChunk parse a (body ++ ['\n']) = readLines parse (body.splitOn '\n') a :=
      (hread []).trans (readChunk_nil _)
    rw [List.foldl_cons, hchunk, ih (fun c hc => hend c (List.mem_cons_of_mem _ hc))
      (fun c hc => hstop c (List.mem_cons_of_mem _ hc)), List.flatten_cons, List.append_assoc, List.singleton_append,
      hread]

/-- **What still works**: chunks that end with their lines, without a marker, give what the whole text gives. -/
theorem readLoop_aligned (hend : ∀ chunk ∈ chunks, ∃ body, chunk = body ++ ['\n'])
    (hstop : ∀ chunk ∈ chunks, ∀ line ∈ chunk.splitOn '\n', ¬Stops line) :
    readLoop parse chunks = readLoop parse [chunks.flatten] :=
  foldl_aligned hend hstop _

end Chunks

/-- An event with the content `Hi`, -/
def hiData : List Char := "\x7b\"choices\":[\x7b\"delta\":\x7b\"content\":\"Hi\"\x7d\x7d]\x7d".toList

/-- its value, -/
def hiValue : Json := .obj [("choices", .arr [.obj [("delta", .obj [("content", .str "Hi".toList)])]])]

/-- and `JSON.parse` at this event. -/
def hiParse : Parse := fun s => if s = hiData then some hiValue else none

/-- The event as a line of the stream. -/
def hiText : List Char := "data: ".toList ++ hiData ++ "\n\n".toList

/-- The event is read from the whole text, and lost when the text is cut within the prefix. -/
theorem cut_line_lost : ¬∀ (parse : Parse) (text : List Char), ChunkFree parse text := by
  intro h
  have hsame := h hiParse hiText [hiText] [hiText.take 2, hiText.drop 2] (by simp) (by simp)
  have hwhole : readLoop hiParse [hiText] = ⟨"Hi".toList, []⟩ := by rfl
  have hcut : readLoop hiParse [hiText.take 2, hiText.drop 2] = ⟨[], []⟩ := by rfl
  rw [hwhole, hcut] at hsame
  cases hsame

end LaManchaland.Ui
