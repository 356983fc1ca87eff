import LaManchaland.Ui.Stream
import LaManchaland.Lib.Runs

/-!
# The chat

`sendChatMessage` is asynchronous: it runs at once up to the request and then waits for the response, for the body of
an error, or for the next chunk. `State` has the chat of the page with every call of it that waits (`Turn`), and `step`
lets the user attach an image, switch the reasoning and send, and lets every waiting call go on or fail.

What a run must have done is read off its steps, each with the state before it: `request` is what a step has to send,
and `log` tells the call in flight and the turns that were answered from the events alone. `Intact` compares the state
with both (`intact_exec`): the call that waits is the only one and the one of the log, `isGenerating` says whether
there is one, the requests are those of the steps, and the history has the pairs of the answered turns.
-/

namespace LaManchaland.Ui.Chat

open Runs

/-! ## Messages -/

abbrev Text := List Char

inductive Role where
  | system
  | user
  | assistant
  deriving DecidableEq

inductive Part where
  | image (url : Text)
  | text (text : Text)
  deriving DecidableEq

inductive Content where
  | text (text : Text)
  | parts (parts : List Part)
  deriving DecidableEq

/-- A message of a request. -/
structure Message where
  role : Role
  content : Content
  deriving DecidableEq

/-- An element of `chatHistory`. -/
structure Entry where
  role : Role
  content : Text
  imageUrl : Option Text
  deriving DecidableEq

/-- The message of an element of the history. -/
def historyMessage (msg : Entry) : Message :=
  match msg.imageUrl with
  | some url =>
    if msg.role = .user ∧ url ≠ [] then ⟨.user, .parts [.image url, .text msg.content]⟩
    else ⟨msg.role, .text msg.content⟩
  | none => ⟨msg.role, .text msg.content⟩

/-- The content of the new user message. -/
def userContent (message image : Text) : Content :=
  let userMsgContent := (if image ≠ [] then [Part.image image] else []) ++ if message ≠ [] then [.text message] else []
  match userMsgContent with
  | [.text _] => .text message
  | _ => .parts userMsgContent

def userMessage (message image : Text) : Message := ⟨.user, userContent message image⟩

def reasoningSystem : Message :=
  ⟨.system, .text ("Think step by step. Show your reasoning process before giving the final answer. " ++
    "Use <think> tags to structure your thinking.").toList⟩

/-- The messages of the request: the loop over the history, the new message, and the `unshift`. -/
def requestMessages (reasoning : Bool) (history : List Entry) (message image : Text) : List Message :=
  let messages := history.foldl (fun messages msg => messages ++ [historyMessage msg]) [] ++ [userMessage message image]
  if reasoning then reasoningSystem :: messages else messages

/-- What a turn that ends normally pushes. -/
def pair (message image fullText : Text) : List Entry :=
  [⟨.user, message, if image ≠ [] then some image else none⟩, ⟨.assistant, fullText, none⟩]

/-! ## The calls -/

/-- Where a call waits: for the response, for the body of an error, or for the reader, with what it has read. -/
inductive Phase (α : Type) where
  | fetching
  | errorBody
  | reading (read : α)

def Phase.map {α β : Type} (f : α → β) : Phase α → Phase β
  | .fetching => .fetching
  | .errorBody => .errorBody
  | .reading read => .reading (f read)

/-- A call that waits. -/
structure Turn where
  message : Text
  image : Text
  phase : Phase Answer

/-- A request; of its body, the messages. -/
structure Sent where
  messages : List Message

structure State where
  chatHistory : List Entry
  isGenerating : Bool
  attachedImageBase64 : Text
  reasoningEnabled : Bool
  turns : List Turn
  sent : List Sent

def init : State := ⟨[], false, [], false, [], []⟩

/-- What happens; `attach []` is the remove button. -/
inductive Event where
  | attach (image : Text)
  | toggleReasoning
  | send (input : Text)
  | fetched (i : Nat) (ok : Bool)
  | fetchFails (i : Nat)
  | errorRead (i : Nat)
  | chunk (i : Nat) (value : Text)
  | readEnds (i : Nat)
  | readFails (i : Nat)

/-- `sendChatMessage` up to its request. -/
def send (input : Text) (s : State) : State :=
  let message := trim input
  if message = [] ∧ s.attachedImageBase64 = [] then s
  else if s.isGenerating then s
  else
    { s with
      attachedImageBase64 := []
      isGenerating := true
      turns := s.turns ++ [⟨message, s.attachedImageBase64, .fetching⟩]
      sent := s.sent ++ [⟨requestMessages s.reasoningEnabled s.chatHistory message s.attachedImageBase64⟩] }

/-- A call goes on waiting. -/
def wait (i : Nat) (t : Turn) (phase : Phase Answer) (s : State) : State :=
  { s with turns := s.turns.set i { t with phase := phase } }

/-- A call ends; its last statement clears the flag. -/
def finish (i : Nat) (s : State) : State := { s with turns := s.turns.eraseIdx i, isGenerating := false }

/-- The end of the stream: the two pushes, and the end of the call. -/
def record (i : Nat) (t : Turn) (answer : Answer) (s : State) : State :=
  finish i { s with chatHistory := s.chatHistory ++ pair t.message t.image answer.fullText }

/-- What becomes of a call that waits; `none` when it does not wait for this. -/
def resume (parse : Parse) (i : Nat) (t : Turn) (s : State) : Event → Option State
  | .fetched _ ok =>
    match t.phase with
    | .fetching => some (wait i t (if ok then .reading ⟨[], []⟩ else .errorBody) s)
    | _ => none
  | .fetchFails _ =>
    match t.phase with
    | .fetching => some (finish i s)
    | _ => none
  | .errorRead _ =>
    match t.phase with
    | .errorBody => some (finish i s)
    | _ => none
  | .chunk _ value =>
    match t.phase with
    | .reading answer => some (wait i t (.reading (readChunk parse answer value)) s)
    | _ => none
  | .readEnds _ =>
    match t.phase with
    | .reading answer => some (record i t answer s)
    | _ => none
  | .readFails _ =>
    match t.phase with
    | .reading _ => some (finish i s)
    | _ => none
  | _ => none

/-- The call that an event is about. -/
def Event.call : Event → Option Nat
  | .attach _ | .toggleReasoning | .send _ => none
  | .fetched i _ | .fetchFails i | .errorRead i | .chunk i _ | .readEnds i | .readFails i => some i

def step (parse : Parse) (s : State) (e : Event) : Option State :=
  match e with
  | .attach image => some { s with attachedImageBase64 := image }
  | .toggleReasoning => some { s with reasoningEnabled := !s.reasoningEnabled }
  | .send input => some (send input s)
  | e => e.call.bind fun i => s.turns[i]?.bind fun t => resume parse i t s e

/-- The events that end a turn without an answer. -/
def Event.Fails : Event → Prop
  | .fetchFails _ | .errorRead _ | .readFails _ => True
  | _ => False

/-- What the only call waits for. -/
inductive Phase.Awaits {α : Type} : Phase α → Event → Prop
  | fetched (ok : Bool) : Awaits .fetching (.fetched 0 ok)
  | fetchFails : Awaits .fetching (.fetchFails 0)
  | errorRead : Awaits .errorBody (.errorRead 0)
  | chunk (read : α) (value : Text) : Awaits (.reading read) (.chunk 0 value)
  | readEnds (read : α) : Awaits (.reading read) (.readEnds 0)
  | readFails (read : α) : Awaits (.reading read) (.readFails 0)

/-! ## What the steps of a run say -/

/-- A message goes out when there is something to send and no call waits. -/
def Accepts (s : State) (input : Text) : Prop :=
  (trim input ≠ [] ∨ s.attachedImageBase64 ≠ []) ∧ s.isGenerating = false

instance (s : State) (input : Text) : Decidable (Accepts s input) := inferInstanceAs (Decidable (_ ∧ _))

/-- What a step has to send: the system message of the reasoning, one message for each element of the history, in
order, and one message of the user. -/
def request : State × Event → Option (List Message)
  | (s, .send input) =>
    if Accepts s input then
      some ((if s.reasoningEnabled then [reasoningSystem] else []) ++ s.chatHistory.map historyMessage ++
        [userMessage (trim input) s.attachedImageBase64])
    else none
  | _ => none

/-- A call as its events tell it: the history and the message when it is sent, and then the chunks of its stream. -/
structure Call where
  history : List Entry
  message : Text
  image : Text
  phase : Phase (List Text)

/-- A turn that ended normally, with its chunks. -/
structure Answered where
  message : Text
  image : Text
  chunks : List Text

/-- The turns that ended normally, and the call in flight. -/
structure Log where
  answered : List Answered
  current : Option Call

def Call.answered (c : Call) : Option Answered :=
  match c.phase with
  | .reading chunks => some ⟨c.message, c.image, chunks⟩
  | _ => none

/-- What a step adds to the log. -/
def Log.add (l : Log) : State × Event → Log
  | (s, .send input) =>
    if Accepts s input then
      { l with current := some ⟨s.chatHistory, trim input, s.attachedImageBase64, .fetching⟩ }
    else l
  | (_, .fetched _ ok) =>
    { l with current := l.current.map fun c => { c with phase := if ok then .reading [] else .errorBody } }
  | (_, .chunk _ value) =>
    { l with current := l.current.map fun c => { c with phase := c.phase.map fun chunks => chunks ++ [value] } }
  | (_, .readEnds _) => ⟨l.answered ++ (l.current.bind Call.answered).toList, none⟩
  | (_, .fetchFails _) | (_, .errorRead _) | (_, .readFails _) => { l with current := none }
  | (_, .attach _) | (_, .toggleReasoning) => l

def log (steps : List (State × Event)) : Log := steps.foldl Log.add ⟨[], none⟩

/-- The two elements of the history for a turn. -/
def Answered.entries (parse : Parse) (a : Answered) : List Entry :=
  [⟨.user, a.message, if a.image ≠ [] then some a.image else none⟩,
    ⟨.assistant, (readLoop parse a.chunks).fullText, none⟩]

/-- How a call waits on the page. -/
def Call.turn (parse : Parse) (c : Call) : Turn := ⟨c.message, c.image, c.phase.map (readLoop parse)⟩

/-- What holds after the steps of every run. -/
structure Intact (parse : Parse) (steps : List (State × Event)) (s : State) : Prop where
  /-- At most one request is in flight. -/
  single : s.turns.length ≤ 1
  /-- The flag says whether one is. -/
  flag : s.isGenerating = true ↔ s.turns ≠ []
  /-- It is the call of the log, which has read what the read loop gives. -/
  call : s.turns = (log steps).current.toList.map (Call.turn parse)
  /-- The history has the pairs of the turns that ended normally, in order. -/
  pairs : s.chatHistory = (log steps).answered.flatMap (Answered.entries parse)
  /-- The history is the one at the request in flight. -/
  still : ∀ c ∈ (log steps).current, c.history = s.chatHistory
  /-- The requests are those of the steps, in order. -/
  requests : s.sent.map Sent.messages = steps.filterMap request
  /-- Each has the roles of the history at its step. -/
  roles : ∀ p ∈ steps, ∀ messages, request p = some messages → messages.map Message.role =
    (if p.1.reasoningEnabled then [.system] else []) ++ p.1.chatHistory.map Entry.role ++ [.user]

section Steps

variable {parse : Parse} {s s' : State} {i : Nat} {t : Turn}

theorem historyMessage_role (msg : Entry) : (historyMessage msg).role = msg.role := by
  unfold historyMessage
  split
  · split
    · rename_i h
      exact h.1.symm
    · rfl
  · rfl

/-- The loop over the history pushes one message for each element. -/
theorem foldl_push (history : List Entry) : ∀ messages : List Message,
    history.foldl (fun messages msg => messages ++ [historyMessage msg]) messages =
      messages ++ history.map historyMessage := by
  induction history with
  | nil => intro messages; simp
  | cons msg history ih =>
    intro messages
    rw [List.foldl_cons, ih, List.map_cons, List.append_assoc]
    rfl

theorem requestMessages_eq (reasoning : Bool) (history : List Entry) (message image : Text) :
    requestMessages reasoning history message image =
      (if reasoning then [reasoningSystem] else []) ++ history.map historyMessage ++ [userMessage message image] := by
  unfold requestMessages
  rw [foldl_push]
  cases reasoning <;> rfl

theorem request_roles (p : State × Event) (messages : List Message) (h : request p = some messages) :
    messages.map Message.role =
      (if p.1.reasoningEnabled then [.system] else []) ++ p.1.chatHistory.map Entry.role ++ [.user] := by
  have hroles : Message.role ∘ historyMessage = Entry.role := funext historyMessage_role
  obtain ⟨s, e⟩ := p
  cases e with
  | send input =>
    simp only [request] at h
    split at h <;> cases h
    rw [List.map_append, List.map_append, List.map_map, hroles]
    cases s.reasoningEnabled <;> rfl
  | _ => cases h

/-- What a step can do. -/
inductive StepSpec (parse : Parse) (s : State) : Event → State → Prop
  | attach (image : Text) : StepSpec parse s (.attach image) { s with attachedImageBase64 := image }
  | toggle : StepSpec parse s .toggleReasoning { s with reasoningEnabled := !s.reasoningEnabled }
  | ignored (input : Text) (h : ¬Accepts s input) : StepSpec parse s (.send input) s
  | sent (input : Text) (h : Accepts s input) : StepSpec parse s (.send input) { s with
      attachedImageBase64 := []
      isGenerating := true
      turns := s.turns ++ [⟨trim input, s.attachedImageBase64, .fetching⟩]
      sent := s.sent ++ [⟨requestMessages s.reasoningEnabled s.chatHistory (trim input) s.attachedImageBase64⟩] }
  | fetched (i : Nat) (t : Turn) (hi : s.turns[i]? = some t) (ok : Bool) (h : t.phase = .fetching) :
      StepSpec parse s (.fetched i ok) (wait i t (if ok then .reading ⟨[], []⟩ else .errorBody) s)
  | chunk (i : Nat) (t : Turn) (hi : s.turns[i]? = some t) (value : Text) (answer : Answer)
      (h : t.phase = .reading answer) :
      StepSpec parse s (.chunk i value) (wait i t (.reading (readChunk parse answer value)) s)
  | fails (i : Nat) (t : Turn) (hi : s.turns[i]? = some t) (e : Event) (h : e.Fails) : StepSpec parse s e (finish i s)
  | ends (i : Nat) (t : Turn) (hi : s.turns[i]? = some t) (answer : Answer) (h : t.phase = .reading answer) :
      StepSpec parse s (.readEnds i) (record i t answer s)

theorem send_spec (parse : Parse) (input : Text) (s : State) : StepSpec parse s (.send input) (send input s) := by
  unfold send
  simp only
  split
  · rename_i h
    exact .ignored input fun ha => ha.1.elim (absurd h.1) (absurd h.2)
  · rename_i hspoken
    split
    · rename_i h
      exact .ignored input fun ha => absurd h (by simp [ha.2])
    · rename_i h
      exact .sent input ⟨not_and_or.mp hspoken, Bool.eq_false_iff.mpr h⟩

/-- A step of a call that waits. -/
theorem step_call {e : Event} (he : e.call = some i) (h : step parse s e = some s') :
    ∃ t, s.turns[i]? = some t ∧ resume parse i t s e = some s' := by
  have hstep : step parse s e = (s.turns[i]?.bind fun t => resume parse i t s e) := by
    cases e <;> cases he <;> rfl
  rw [hstep] at h
  exact Option.bind_eq_some_iff.mp h

theorem step_spec {e : Event} (h : step parse s e = some s') : StepSpec parse s e s' := by
  cases e with
  | attach image => cases h; exact .attach image
  | toggleReasoning => cases h; exact .toggle
  | send input => cases h; exact send_spec parse input s
  | fetched i ok =>
    obtain ⟨t, hi, h⟩ := step_call rfl h
    simp only [resume] at h
    split at h <;> cases h
    rename_i hp
    exact .fetched i t hi ok hp
  | fetchFails i =>
    obtain ⟨t, hi, h⟩ := step_call rfl h
    simp only [resume] at h
    split at h <;> cases h
    exact .fails i t hi _ trivial
  | errorRead i =>
    obtain ⟨t, hi, h⟩ := step_call rfl h
    simp only [resume] at h
    split at h <;> cases h
    exact .fails i t hi _ trivial
  | chunk i value =>
    obtain ⟨t, hi, h⟩ := step_call rfl h
    simp only [resume] at h
    split at h <;> cases h
    rename_i hp
    exact .chunk i t hi value _ hp
  | readEnds i =>
    obtain ⟨t, hi, h⟩ := step_call rfl h
    simp only [resume] at h
    split at h <;> cases h
    rename_i hp
    exact .ends i t hi _ hp
  | readFails i =>
    obtain ⟨t, hi, h⟩ := step_call rfl h
    simp only [resume] at h
    split at h <;> cases h
    exact .fails i t hi _ trivial

/-- Only the end of a stream touches the history. -/
theorem step_history {e : Event} (h : step parse s e = some s') :
    s'.chatHistory = s.chatHistory ∨ ∃ i, e = .readEnds i := by
  cases step_spec h with
  | ends i t hi answer hp => exact .inr ⟨i, rfl⟩
  | _ => exact .inl rfl

theorem step_fails {e : Event} (hf : e.Fails) (h : step parse s e = some s') :
    s'.chatHistory = s.chatHistory ∧ s'.isGenerating = false := by
  cases step_spec h with
  | fails i t hi => exact ⟨rfl, rfl⟩
  | _ => exact hf.elim

/-- What the only call waits for can happen. -/
theorem step_awaited (hturns : s.turns = [t]) {e : Event} (h : t.phase.Awaits e) : (step parse s e).isSome := by
  have h0 : s.turns[0]? = some t := by rw [hturns]; rfl
  have hstep : e.call = some 0 → step parse s e = resume parse 0 t s e := by
    intro he
    cases e <;> cases he <;> simp only [step, Event.call, h0, Option.bind_some]
  generalize hp : t.phase = phase at h
  cases h <;> rw [hstep rfl] <;> simp [resume, hp]

end Steps

/-! ## The invariant -/

section Invariant

variable {parse : Parse} {steps : List (State × Event)} {s s' : State} {i : Nat} {t : Turn}

theorem log_snoc (steps : List (State × Event)) (p : State × Event) : log (steps ++ [p]) = (log steps).add p := by
  rw [log, List.foldl_append]
  rfl

theorem requests_snoc (steps : List (State × Event)) (p : State × Event) :
    (steps ++ [p]).filterMap request = steps.filterMap request ++ (request p).toList := by
  rw [List.filterMap_append]
  cases h : request p <;> simp [h]

/-- What is left to show when the call is that of the log. -/
theorem intact_of_call (flag : s.isGenerating = (log steps).current.isSome)
    (call : s.turns = (log steps).current.toList.map (Call.turn parse))
    (pairs : s.chatHistory = (log steps).answered.flatMap (Answered.entries parse))
    (still : ∀ c ∈ (log steps).current, c.history = s.chatHistory)
    (requests : s.sent.map Sent.messages = steps.filterMap request) : Intact parse steps s := by
  refine ⟨?_, ?_, call, pairs, still, requests, fun p _ => request_roles p⟩
  · rw [call]
    cases (log steps).current <;> simp
  · rw [flag, call]
    cases (log steps).current <;> simp

theorem intact_init : Intact parse [] init :=
  intact_of_call rfl rfl rfl (fun c hc => absurd hc (Option.not_mem_none c)) rfl

/-- The flag in terms of the log. -/
theorem Intact.flag_eq (h : Intact parse steps s) : s.isGenerating = (log steps).current.isSome := by
  have hflag := h.flag
  rw [h.call] at hflag
  cases hc : (log steps).current with
  | none => rw [hc] at hflag; simpa using hflag
  | some c => rw [hc] at hflag; simpa using hflag

/-- The call that waits is the one of the log. -/
theorem Intact.current (h : Intact parse steps s) (hi : s.turns[i]? = some t) :
    i = 0 ∧ ∃ c, (log steps).current = some c ∧ t = c.turn parse ∧ s.turns = [c.turn parse] := by
  have hcall := h.call
  cases hc : (log steps).current with
  | none =>
    rw [hcall, hc] at hi
    cases hi
  | some c =>
    rw [hc] at hcall
    rw [hcall] at hi
    obtain ⟨hlt, hget⟩ := List.getElem?_eq_some_iff.mp hi
    have h0 : i = 0 := by simpa using hlt
    subst h0
    exact ⟨rfl, c, rfl, hget.symm, hcall⟩

/-- A step that neither sends nor is about the call. -/
theorem intact_quiet (h : Intact parse steps s) {e : Event} (hlog : (log steps).add (s, e) = log steps)
    (hreq : request (s, e) = none) (hturns : s'.turns = s.turns) (hflag : s'.isGenerating = s.isGenerating)
    (hhistory : s'.chatHistory = s.chatHistory) (hsent : s'.sent = s.sent) : Intact parse (steps ++ [(s, e)]) s' := by
  refine intact_of_call ?_ ?_ ?_ ?_ ?_
  · rw [log_snoc, hlog, hflag, h.flag_eq]
  · rw [log_snoc, hlog, hturns, h.call]
  · rw [log_snoc, hlog, hhistory, h.pairs]
  · rw [log_snoc, hlog, hhistory]
    exact h.still
  · rw [requests_snoc, hreq, hsent, h.requests]
    simp

/-- A request is sent when no call waits. -/
theorem intact_sent (h : Intact parse steps s) (input : Text) (ha : Accepts s input) :
    Intact parse (steps ++ [(s, .send input)]) { s with
      attachedImageBase64 := []
      isGenerating := true
      turns := s.turns ++ [⟨trim input, s.attachedImageBase64, .fetching⟩]
      sent := s.sent ++ [⟨requestMessages s.reasoningEnabled s.chatHistory (trim input) s.attachedImageBase64⟩] } := by
  have hnone : s.turns = [] := by
    by_contra hne
    have hflag := h.flag.mpr hne
    rw [ha.2] at hflag
    cases hflag
  have hlog : log (steps ++ [(s, .send input)]) = { log steps with
      current := some ⟨s.chatHistory, trim input, s.attachedImageBase64, .fetching⟩ } := by
    rw [log_snoc]
    exact if_pos ha
  have hreq : request (s, .send input) = some (requestMessages s.reasoningEnabled s.chatHistory (trim input)
      s.attachedImageBase64) := by
    rw [requestMessages_eq]
    exact if_pos ha
  refine intact_of_call ?_ ?_ ?_ ?_ ?_
  · rw [hlog]
    rfl
  · rw [hlog, hnone]
    rfl
  · rw [hlog]
    exact h.pairs
  · rw [hlog]
    rintro c ⟨⟩
    rfl
  · rw [requests_snoc, hreq, List.map_append, h.requests]
    rfl

theorem readLoop_snoc (chunks : List Text) (value : Text) :
    readLoop parse (chunks ++ [value]) = readChunk parse (readLoop parse chunks) value := by
  rw [readLoop, List.foldl_append]
  rfl

/-- A call goes on, here and in the log. -/
theorem intact_wait (h : Intact parse steps s) (hi : s.turns[i]? = some t) {e : Event} (phase : Phase (List Text))
    {phase' : Phase Answer} (hlog : ∀ c, (log steps).current = some c → t = c.turn parse →
      (log steps).add (s, e) = { log steps with current := some { c with phase := phase } })
    (hreq : request (s, e) = none) (hphase : phase' = phase.map (readLoop parse)) :
    Intact parse (steps ++ [(s, e)]) (wait i t phase' s) := by
  obtain ⟨rfl, c, hc, ht, hturns⟩ := h.current hi
  have hlog : log (steps ++ [(s, e)]) = { log steps with current := some { c with phase := phase } } := by
    rw [log_snoc, hlog c hc ht]
  refine intact_of_call ?_ ?_ ?_ ?_ ?_
  · rw [hlog]
    exact h.flag.mpr (by simp [hturns])
  · rw [hlog]
    show s.turns.set 0 { t with phase := phase' } = _
    rw [hturns, ht, hphase]
    rfl
  · rw [hlog]
    exact h.pairs
  · rw [hlog]
    rintro _ ⟨⟩
    exact h.still c hc
  · rw [requests_snoc, hreq]
    simpa [wait] using h.requests

/-- A call ends, here and in the log; `entries` is what it leaves. -/
theorem intact_end (h : Intact parse steps s) (hi : s.turns[i]? = some t) {e : Event} (answered : List Answered)
    (entries : List Entry) (hlog : (log steps).add (s, e) = ⟨(log steps).answered ++ answered, none⟩)
    (hreq : request (s, e) = none) (hentries : entries = answered.flatMap (Answered.entries parse)) :
    Intact parse (steps ++ [(s, e)]) (finish i { s with chatHistory := s.chatHistory ++ entries }) := by
  obtain ⟨rfl, c, hc, ht, hturns⟩ := h.current hi
  refine intact_of_call ?_ ?_ ?_ ?_ ?_
  · rw [log_snoc, hlog]
    rfl
  · rw [log_snoc, hlog]
    show s.turns.eraseIdx 0 = []
    rw [hturns]
    rfl
  · rw [log_snoc, hlog, List.flatMap_append, ← h.pairs, ← hentries]
    rfl
  · rw [log_snoc, hlog]
    exact fun c hc => absurd hc (Option.not_mem_none c)
  · rw [requests_snoc, hreq]
    simpa [finish] using h.requests

/-- What the call of the log has read. -/
theorem Call.turn_reading {c : Call} {answer : Answer} (h : (c.turn parse).phase = .reading answer) :
    ∃ chunks, c.phase = .reading chunks ∧ answer = readLoop parse chunks := by
  simp only [Call.turn] at h
  cases hp : c.phase <;> rw [hp] at h <;> cases h
  exact ⟨_, rfl, rfl⟩

/-- **Every step keeps the chat intact.** -/
theorem intact_step {e : Event} (h : Intact parse steps s) (hs : step parse s e = some s') :
    Intact parse (steps ++ [(s, e)]) s' := by
  cases step_spec hs with
  | attach image => exact intact_quiet h rfl rfl rfl rfl rfl rfl
  | toggle => exact intact_quiet h rfl rfl rfl rfl rfl rfl
  | ignored input hi => exact intact_quiet h (if_neg hi) (if_neg hi) rfl rfl rfl rfl
  | sent input ha => exact intact_sent h input ha
  | fetched i t hi ok hp =>
    refine intact_wait h hi (if ok then .reading [] else .errorBody) (fun c hc _ => ?_) rfl ?_
    · simp only [Log.add, hc, Option.map_some]
    · cases ok <;> rfl
  | chunk i t hi value answer hp =>
    obtain ⟨-, c, hc, rfl, -⟩ := h.current hi
    obtain ⟨chunks, hphase, rfl⟩ := Call.turn_reading hp
    refine intact_wait h hi (.reading (chunks ++ [value])) (fun d hd _ => ?_) rfl ?_
    · rw [hc] at hd
      cases hd
      simp only [Log.add, hc, Option.map_some, hphase, Phase.map]
    · rw [Phase.map, readLoop_snoc]
  | fails i t hi e hf =>
    have hend := intact_end h hi (e := e) [] []
    simp only [List.append_nil] at hend
    cases e with
    | fetchFails j => exact hend rfl rfl rfl
    | errorRead j => exact hend rfl rfl rfl
    | readFails j => exact hend rfl rfl rfl
    | _ => exact hf.elim
  | ends i t hi answer hp =>
    obtain ⟨-, c, hc, rfl, -⟩ := h.current hi
    obtain ⟨chunks, hphase, rfl⟩ := Call.turn_reading hp
    refine intact_end h hi [⟨c.message, c.image, chunks⟩] _ ?_ rfl ?_
    · simp only [Log.add, hc, Option.bind_some, Call.answered, hphase, Option.toList_some]
    · rw [List.flatMap_singleton]
      rfl

end Invariant

/-- **The chat is intact after every run**: it goes on whenever it waits, only the end of a stream touches the history,
and a failing turn leaves it as it was at its request. -/
theorem intact_exec {parse : Parse} {es : List Event} {s : State} (h : exec (step parse) init es = some s) :
    Intact parse (trace (step parse) init es) s ∧
    (∀ t ∈ s.turns, ∀ e, t.phase.Awaits e → (step parse s e).isSome) ∧
    ∀ e s', step parse s e = some s' → (s'.chatHistory = s.chatHistory ∨ ∃ i, e = .readEnds i) ∧
      (e.Fails → s'.isGenerating = false ∧
        ∀ c ∈ (log (trace (step parse) init es)).current, s'.chatHistory = c.history) := by
  have hintact : Intact parse (trace (step parse) init es) s := by
    refine exec_history (I := fun es s => Intact parse (trace (step parse) init es) s) ?_ intact_init h
    intro es s e t hs hi ht
    rw [trace_snoc hs]
    exact intact_step hi ht
  refine ⟨hintact, fun t ht e he => ?_, fun e s' hs => ⟨step_history hs, fun hf => ?_⟩⟩
  · obtain ⟨i, hi⟩ := List.getElem?_of_mem ht
    obtain ⟨-, c, -, rfl, hturns⟩ := hintact.current hi
    exact step_awaited hturns he
  · obtain ⟨hhistory, hflag⟩ := step_fails hf hs
    exact ⟨hflag, fun c hc => hhistory.trans (hintact.still c hc).symm⟩

/-- A turn with an answer, and a second one whose stream fails. -/
def twoTurns : List Event :=
  [.send "Hello".toList, .fetched 0 true, .chunk 0 hiText, .readEnds 0, .attach "data:,".toList, .send [],
    .fetched 0 true, .chunk 0 hiText]

theorem intact_twoTurns : ∃ s, exec (step hiParse) init twoTurns = some s ∧ s.turns.length = 1 ∧
    Intact hiParse (trace (step hiParse) init twoTurns) s ∧
    (∀ t ∈ s.turns, ∀ e, t.phase.Awaits e → (step hiParse s e).isSome) ∧
    ∀ e s', step hiParse s e = some s' → (s'.chatHistory = s.chatHistory ∨ ∃ i, e = .readEnds i) ∧
      (e.Fails → s'.isGenerating = false ∧
        ∀ c ∈ (log (trace (step hiParse) init twoTurns)).current, s'.chatHistory = c.history) :=
  ⟨_, rfl, rfl, @intact_exec hiParse twoTurns _ rfl⟩

end LaManchaland.Ui.Chat
