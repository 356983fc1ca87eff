import LaManchaland.Lib.Dom
import LaManchaland.Ui.Stream

/-!
# The message of the assistant in the document

`sendChatMessage` holds on to the paragraph of the message, `contentEl`, and looks for a paragraph below it: there is
none, so the assignment of the text throws, and the exception is skipped. The reasoning is shown in a block within the
paragraph. `View` is the document with `fullText` while deltas are handled; `shown` is what it looks like after any
deltas (`stream_eq`), that is for the answer of the read loop (`handleDelta_addData`).

`shows_iff`: the paragraph has the content that goes to the history exactly when that is the text of the block.
-/

namespace LaManchaland.Ui.AssistantMsg

open Dom

abbrev Text := List Char

/-- A delta of the stream; a property that is not there is empty. -/
structure Delta where
  reasoning : Text
  content : Text

/-! ## The elements -/

/-- A reasoning block with its elements numbered from `n`. -/
def reasoningBlock (n : Nat) (content : Text) : Forest :=
  .elem ⟨n, "div", ["reasoning-block"]⟩
    (.elem ⟨n + 1, "div", ["reasoning-header"]⟩
      (.elem ⟨n + 2, "span", ["material-symbols-rounded"]⟩ (.text "psychology".toList .nil)
        (.text " Reasoning".toList .nil))
      (.elem ⟨n + 3, "div", ["reasoning-text"]⟩ (.ofText content) .nil))
    .nil

/-- The message of the assistant, with what its paragraph holds. -/
def message (reasoningEnabled : Bool) (inside : Forest) : Forest :=
  let p := Forest.elem ⟨2, "p", []⟩ inside .nil
  .elem ⟨0, "div", ["message", "assistant"]⟩
    (.elem ⟨1, "div", ["message-content"]⟩
      (if reasoningEnabled then (reasoningBlock 4 "Thinking...".toList).append p else p) .nil)
    .nil

/-- `appendMessage('assistant', content)`. -/
def appendMessage (reasoningEnabled : Bool) (content : Text) : Forest := message reasoningEnabled (.ofText content)

def cursorEl : Info := ⟨3, "span", ["cursor-blink"]⟩

/-- The paragraph of the answer in a document. -/
def paragraph (document : Forest) : Option Element := document.querySelector (byClassTag "message-content" "p")

/-- `contentEl`. -/
def contentEl (reasoningEnabled : Bool) : Nat :=
  ((paragraph (appendMessage reasoningEnabled [])).map fun e => e.info.id).getD 0

/-! ## The stream -/

/-- The document, the next number of an element, and `fullText`. -/
structure View where
  document : Forest
  nextId : Nat
  fullText : Text

/-- The message with its cursor. -/
def start (reasoningEnabled : Bool) : View where
  document := (appendMessage reasoningEnabled []).appendChild (contentEl reasoningEnabled) cursorEl
  nextId := 8
  fullText := []

section Handlers

variable (content : Nat)

/-- The reasoning block is made when there is none. -/
def ensureBlock (v : View) : Except View View :=
  let inner := v.document.childrenOf content
  match inner.querySelector (byClass "reasoning-block") with
  | some _ => .ok v
  | none =>
    match v.document.insertBefore content (reasoningBlock v.nextId [])
        ((inner.querySelector (byTag "p")).map fun e => e.info.id) with
    | some document => .ok { v with document := document, nextId := v.nextId + 4 }
    | none => .error v

/-- `reasonText.textContent += delta.reasoning_content`. -/
def extendReasoning (r : Text) (v : View) : View :=
  match (v.document.childrenOf content).querySelector (byClass "reasoning-text") with
  | some t => { v with document := v.document.setTextContent t.info.id (t.children.textContent ++ r) }
  | none => v

def addReasoning (r : Text) (v : View) : Except View View :=
  if r = [] then .ok v else (ensureBlock content v).map (extendReasoning content r)

def addContent (c : Text) (v : View) : Except View View :=
  if c = [] then .ok v
  else
    let v := { v with fullText := v.fullText ++ c }
    match (v.document.childrenOf content).querySelector (byTag "p") with
    | some p =>
      .ok { v with document := (v.document.setTextContent p.info.id v.fullText).appendChild content cursorEl }
    | none => .error v

/-- The `try` block: an exception leaves what was done before it. -/
def handleDelta (v : View) (d : Delta) : View :=
  match (addReasoning content d.reasoning v).bind (addContent content d.content) with
  | .ok v | .error v => v

end Handlers

/-- The view after the deltas, and after the cursor has been removed. -/
def stream (reasoningEnabled : Bool) (ds : List Delta) : View :=
  ds.foldl (handleDelta (contentEl reasoningEnabled)) (start reasoningEnabled)

def final (reasoningEnabled : Bool) (ds : List Delta) : View :=
  let v := stream reasoningEnabled ds
  { v with document := v.document.remove cursorEl.id }

/-- All content and all reasoning of a stream. -/
def contents (ds : List Delta) : Text := ds.flatMap Delta.content

def reasonings (ds : List Delta) : Text := ds.flatMap Delta.reasoning

/-- The chat shows what it records. -/
structure Shows (reasoningEnabled : Bool) (ds : List Delta) : Prop where
  /-- The paragraph has the content. -/
  answer : (paragraph (final reasoningEnabled ds).document).map (fun p => p.children.textContent) = some (contents ds)
  /-- So has the history. -/
  history : (final reasoningEnabled ds).fullText = contents ds
  /-- The reasoning is in one block. -/
  reasoning : reasonings ds ≠ [] →
    ∃ block ∈ (final reasoningEnabled ds).document.querySelectorAll (byClass "reasoning-block"),
      ∃ t ∈ block.children.querySelectorAll (byClass "reasoning-text"), t.children.textContent = reasonings ds

/-! ## What the view looks like -/

/-- The children of the paragraph, after the cursor, when the reasoning is shown. -/
def shownReasoning (r : Text) : Forest := if r = [] then .nil else reasoningBlock 8 r

/-- The view of an answer. -/
def shown (reasoningEnabled : Bool) (a : Answer) : View where
  document := message reasoningEnabled (.elem cursorEl .nil (shownReasoning a.reasoning))
  nextId := if a.reasoning = [] then 8 else 12
  fullText := a.fullText

section Shown

variable {b : Bool} {a : Answer} {r c : Text}

theorem contentEl_eq (b : Bool) : contentEl b = 2 := by cases b <;> rfl

theorem start_eq (b : Bool) : start b = shown b ⟨[], []⟩ := by cases b <;> rfl

/-- Reasoning that is not empty is a text node of its block. -/
theorem shownReasoning_text (h : r ≠ []) : shownReasoning r =
    .elem ⟨8, "div", ["reasoning-block"]⟩
      (.elem ⟨9, "div", ["reasoning-header"]⟩
        (.elem ⟨10, "span", ["material-symbols-rounded"]⟩ (.text "psychology".toList .nil)
          (.text " Reasoning".toList .nil))
        (.elem ⟨11, "div", ["reasoning-text"]⟩ (.text r .nil) .nil))
      .nil := by
  rw [shownReasoning, if_neg h, reasoningBlock, Forest.ofText, if_neg h]

/-- The first reasoning makes a block, -/
theorem ensureBlock_first (ha : a.reasoning = []) : ensureBlock 2 (shown b a) = .ok { shown b a with
    document := message b (.elem cursorEl .nil (reasoningBlock 8 [])), nextId := 12 } := by
  cases b <;> simp only [shown, shownReasoning, ha] <;> rfl

/-- and the others find it. -/
theorem ensureBlock_again (ha : a.reasoning ≠ []) : ensureBlock 2 (shown b a) = .ok (shown b a) := by
  cases b <;> simp only [shown, shownReasoning, ha] <;> rfl

/-- The text of a block is extended. -/
theorem extendReasoning_block (r r' fullText : Text) (n : Nat) : extendReasoning 2 r
    ⟨message b (.elem cursorEl .nil (reasoningBlock 8 r')), n, fullText⟩ =
      ⟨message b (.elem cursorEl .nil (reasoningBlock 8 (r' ++ r))), n, fullText⟩ := by
  have hquery : ((message b (.elem cursorEl .nil (reasoningBlock 8 r'))).childrenOf 2).querySelector
      (byClass "reasoning-text") =
        some ⟨⟨11, "div", ["reasoning-text"]⟩, [⟨8, "div", ["reasoning-block"]⟩], .ofText r'⟩ := by
    cases b <;> rfl
  unfold extendReasoning
  simp only [hquery, textContent_ofText]
  cases b <;> rfl

/-- The reasoning of a delta is added to the block. -/
theorem addReasoning_shown (r : Text) :
    addReasoning 2 r (shown b a) = .ok (shown b ⟨a.fullText, a.reasoning ++ r⟩) := by
  unfold addReasoning
  by_cases hr : r = []
  · rw [if_pos hr, hr, List.append_nil]
  · have hne : a.reasoning ++ r ≠ [] := fun h => hr (List.append_eq_nil_iff.mp h).2
    have hshown : shown b ⟨a.fullText, a.reasoning ++ r⟩ =
        ⟨message b (.elem cursorEl .nil (reasoningBlock 8 (a.reasoning ++ r))), 12, a.fullText⟩ := by
      simp only [shown, shownReasoning, hne, if_false]
    rw [if_neg hr, hshown]
    by_cases ha : a.reasoning = []
    · rw [ensureBlock_first ha, ha]
      exact congrArg Except.ok (extendReasoning_block r [] a.fullText 12)
    · have hsame : shown b a = ⟨message b (.elem cursorEl .nil (reasoningBlock 8 a.reasoning)), 12, a.fullText⟩ := by
        simp only [shown, shownReasoning, ha, if_false]
      rw [ensureBlock_again ha, hsame]
      exact congrArg Except.ok (extendReasoning_block r a.reasoning a.fullText 12)

/-- There is no paragraph in the paragraph, so the content of a delta is recorded and not shown. -/
theorem addContent_shown (c : Text) : addContent 2 c (shown b a) = if c = [] then .ok (shown b a)
    else .error (shown b ⟨a.fullText ++ c, a.reasoning⟩) := by
  have hquery : ((shown b a).document.childrenOf 2).querySelector (byTag "p") = none := by
    by_cases ha : a.reasoning = []
    · cases b <;> simp only [shown, shownReasoning, ha] <;> rfl
    · cases b <;> simp only [shown, shownReasoning_text ha] <;> rfl
  unfold addContent
  simp only [hquery]
  rfl

/-- **A delta** adds its texts to the answer that the view shows. -/
theorem handleDelta_shown (d : Delta) :
    handleDelta 2 (shown b a) d = shown b (a.append ⟨d.content, d.reasoning⟩) := by
  unfold handleDelta
  rw [addReasoning_shown]
  show (match addContent 2 d.content (shown b ⟨a.fullText, a.reasoning ++ d.reasoning⟩) with
    | .ok v | .error v => v) = _
  rw [addContent_shown]
  by_cases hc : d.content = []
  · simp only [hc, if_true, Answer.append, List.append_nil]
  · simp only [hc, if_false, Answer.append]

/-- The delta of an event. -/
def deltaOf (data : Json) : Delta := ⟨deltaText "reasoning_content" (delta data), deltaText "content" (delta data)⟩

/-- The view shows the answer of the read loop. -/
theorem handleDelta_addData {data : Json} (h : data.isNull = false) :
    handleDelta 2 (shown b a) (deltaOf data) = shown b (addData (some data) a) := by
  rw [handleDelta_shown, addData_append]
  simp [addData, h, deltaOf]

/-- The view after a stream. -/
theorem stream_eq (b : Bool) (ds : List Delta) : stream b ds = shown b ⟨contents ds, reasonings ds⟩ := by
  have hfold : ∀ (ds : List Delta) (a : Answer), ds.foldl (handleDelta 2) (shown b a) =
      shown b (a.append ⟨contents ds, reasonings ds⟩) := by
    intro ds
    induction ds with
    | nil => intro a; simp [contents, reasonings]
    | cons d ds ih =>
      intro a
      rw [List.foldl_cons, handleDelta_shown, ih]
      simp [contents, reasonings, Answer.append]
  rw [stream, contentEl_eq, start_eq, hfold]
  rfl

/-- The document without the cursor. -/
theorem final_eq (b : Bool) (ds : List Delta) : final b ds =
    { shown b ⟨contents ds, reasonings ds⟩ with document := message b (shownReasoning (reasonings ds)) } := by
  rw [final, stream_eq]
  by_cases hr : reasonings ds = []
  · cases b <;> simp only [shown, shownReasoning, hr] <;> rfl
  · cases b <;> simp only [shown, shownReasoning_text hr] <;> rfl

/-- The text of the paragraph: the heading of the block and the reasoning. -/
def heading (r : Text) : Text := if r = [] then [] else "psychology Reasoning".toList ++ r

theorem textContent_shownReasoning (r : Text) : (shownReasoning r).textContent = heading r := by
  unfold shownReasoning heading
  split
  · rfl
  · simp [reasoningBlock, Forest.textContent]

/-- The paragraph of the message is the one that `contentEl` holds on to. -/
theorem paragraph_message (b : Bool) (inside : Forest) :
    (paragraph (message b inside)).map (fun p => p.children.textContent) = some inside.textContent := by
  cases b <;> rfl

theorem paragraph_final (b : Bool) (ds : List Delta) :
    (paragraph (final b ds).document).map (fun p => p.children.textContent) = some (heading (reasonings ds)) := by
  rw [final_eq, paragraph_message, textContent_shownReasoning]

/-- The block of the paragraph is one of the blocks of the message. -/
theorem block_mem (b : Bool) (r : Text) : ∃ block ∈ (message b (reasoningBlock 8 r)).querySelectorAll
    (byClass "reasoning-block"), Forest.elem block.info block.children .nil = reasoningBlock 8 r := by
  refine ⟨⟨⟨8, "div", ["reasoning-block"]⟩, [⟨2, "p", []⟩, ⟨1, "div", ["message-content"]⟩,
    ⟨0, "div", ["message", "assistant"]⟩], _⟩, List.mem_filter.mpr ⟨?_, rfl⟩, rfl⟩
  cases b with
  | false => exact List.mem_of_getElem? (i := 3) rfl
  | true => exact List.mem_of_getElem? (i := 7) rfl

/-- The reasoning is in the block of the paragraph. -/
theorem reasoning_final (b : Bool) (ds : List Delta) (hr : reasonings ds ≠ []) :
    ∃ block ∈ (final b ds).document.querySelectorAll (byClass "reasoning-block"),
      ∃ t ∈ block.children.querySelectorAll (byClass "reasoning-text"), t.children.textContent = reasonings ds := by
  rw [final_eq, shownReasoning, if_neg hr]
  obtain ⟨block, hblock, heq⟩ := block_mem b (reasonings ds)
  obtain ⟨_, hchildren, _⟩ := Forest.elem.inj heq
  refine ⟨block, hblock, ⟨⟨11, "div", ["reasoning-text"]⟩, [], .ofText (reasonings ds)⟩, ?_, textContent_ofText _⟩
  rw [hchildren]
  exact List.mem_filter.mpr ⟨List.mem_of_getElem? (i := 2) rfl, rfl⟩

end Shown

/-- **When the chat shows what it records**, with or without the reasoning mode: the content of the stream is the text
of the reasoning block, nothing when there is no reasoning. -/
theorem shows_iff (reasoningEnabled : Bool) (ds : List Delta) :
    Shows reasoningEnabled ds ↔ contents ds = heading (reasonings ds) := by
  constructor
  · intro h
    have hsame := (paragraph_final reasoningEnabled ds).symm.trans h.answer
    exact (Option.some.inj hsame).symm
  · intro h
    refine ⟨(paragraph_final reasoningEnabled ds).trans (congrArg some h.symm), ?_, reasoning_final reasoningEnabled ds⟩
    rw [final_eq]
    rfl

/-- An answer without reasoning. -/
def helloDeltas : List Delta := [⟨[], "Hel".toList⟩, ⟨[], "lo".toList⟩]

/-- Its paragraph stays empty. -/
theorem shows_hello : ¬∀ (reasoningEnabled : Bool) (ds : List Delta), Shows reasoningEnabled ds := by
  intro h
  have hanswer := (paragraph_final false helloDeltas).symm.trans (h false helloDeltas).answer
  exact absurd hanswer (by decide)

end LaManchaland.Ui.AssistantMsg
