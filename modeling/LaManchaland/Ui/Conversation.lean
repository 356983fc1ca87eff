import LaManchaland.Ui.Chat

/-!
# A conversation

A turn of the user is encoded twice: from the input box when it is sent, and from the history in every later request.
Without a text the first encoding is the image alone, and the second the image and an empty text
(`userMessage_eq_iff`).

`script` is a conversation of turns that all end normally, as a run of the chat, and `exec_script` says what it sends.
`stable_iff`: every request of it begins with the one before and its reply exactly when all turns but the last have a
text.
-/

namespace LaManchaland.Ui.Chat

open Runs

/-- A turn that is sent, with what is typed and attached, and answered. -/
structure Spoken where
  input : Text
  image : Text
  chunks : List Text
  /-- There is something to send. -/
  spoken : trim input ≠ [] ∨ image ≠ []

section Spoken

variable (parse : Parse)

def Spoken.message (e : Spoken) : Text := trim e.input

/-- What the turn adds to the history. -/
def Spoken.entries (e : Spoken) : List Entry := pair e.message e.image (readLoop parse e.chunks).fullText

/-- The reply of the assistant. -/
def Spoken.reply (e : Spoken) : Message := ⟨.assistant, .text (readLoop parse e.chunks).fullText⟩

/-- The turn as a run of the chat. -/
def Spoken.script (e : Spoken) : List Event :=
  [.attach e.image, .send e.input, .fetched 0 true] ++ e.chunks.map (.chunk 0) ++ [.readEnds 0]

/-- The conversation as a run of the chat. -/
def script (turns : List Spoken) : List Event := turns.flatMap Spoken.script

/-- The requests of a conversation after a history. -/
def requests : List Entry → List Spoken → List Sent
  | _, [] => []
  | history, e :: turns =>
    ⟨requestMessages false history e.message e.image⟩ ::
      requests (history ++ e.entries parse) turns

/-- The chat when no call waits and the reasoning is off. -/
def idle (history : List Entry) (sent : List Sent) : State := ⟨history, false, [], false, [], sent⟩

end Spoken

/-- Every request begins with the one before it and its reply. -/
def Stable (requests : List (List Message)) (replies : List Message) : Prop :=
  ∀ (k : Nat) (request next : List Message) (reply : Message), requests[k]? = some request →
    requests[k + 1]? = some next → replies[k]? = some reply → request ++ [reply] <+: next

/-! ## What a conversation sends -/

section Script

variable {parse : Parse} {history : List Entry} {sent : List Sent}

/-- The chunks of a turn are read one after the other. -/
theorem exec_chunks (message image : Text) : ∀ (values : List Text) (answer : Answer),
    exec (step parse) ⟨history, true, [], false, [⟨message, image, .reading answer⟩], sent⟩ (values.map (.chunk 0)) =
      some ⟨history, true, [], false, [⟨message, image, .reading (values.foldl (readChunk parse) answer)⟩], sent⟩
  | [], _ => rfl
  | value :: values, answer => exec_chunks message image values (readChunk parse answer value)

/-- **A turn** sends its request and adds its pair to the history. -/
theorem exec_turn (e : Spoken) : exec (step parse) (idle history sent) e.script =
    some (idle (history ++ e.entries parse) (sent ++ [⟨requestMessages false history e.message e.image⟩])) := by
  have hsend : send e.input { idle history sent with attachedImageBase64 := e.image } =
      ⟨history, true, [], false, [⟨e.message, e.image, .fetching⟩],
        sent ++ [⟨requestMessages false history e.message e.image⟩]⟩ := by
    have hspoken : ¬(trim e.input = [] ∧ e.image = []) := fun h => e.spoken.elim (fun hm => hm h.1) fun hi => hi h.2
    rw [send, if_neg hspoken]
    rfl
  have hopen : exec (step parse) (idle history sent) [.attach e.image, .send e.input, .fetched 0 true] =
      some ⟨history, true, [], false, [⟨e.message, e.image, .reading ⟨[], []⟩⟩],
        sent ++ [⟨requestMessages false history e.message e.image⟩]⟩ := by
    show exec (step parse) { idle history sent with attachedImageBase64 := e.image }
      [.send e.input, .fetched 0 true] = _
    rw [exec_cons]
    show (some (send e.input { idle history sent with attachedImageBase64 := e.image })).bind _ = _
    rw [hsend]
    rfl
  exact exec_trans (exec_trans hopen (exec_chunks e.message e.image e.chunks ⟨[], []⟩)) rfl

/-- **A conversation** sends its requests and leaves its pairs. -/
theorem exec_script : ∀ (turns : List Spoken) (history : List Entry) (sent : List Sent),
    exec (step parse) (idle history sent) (script turns) =
      some (idle (history ++ turns.flatMap (Spoken.entries parse)) (sent ++ requests parse history turns))
  | [], history, sent => by
    simp only [List.flatMap_nil, requests, List.append_nil]
    rfl
  | e :: turns, history, sent => by
    have hrest := exec_script turns (history ++ e.entries parse)
      (sent ++ [⟨requestMessages false history e.message e.image⟩])
    rw [List.append_assoc, List.append_assoc] at hrest
    exact exec_trans (exec_turn e) hrest

end Script

/-! ## The two encodings of a turn -/

section Encodings

variable {parse : Parse}

/-- **The encoders agree on a turn that has a text**, and on no other one. -/
theorem userMessage_eq_iff (message image : Text) :
    userMessage message image = historyMessage ⟨.user, message, if image ≠ [] then some image else none⟩ ↔
      message ≠ [] := by
  by_cases hi : image = [] <;> by_cases hm : message = [] <;>
    simp [userMessage, userContent, historyMessage, hi, hm]

/-- A request begins with the one before and its reply when the turn before has a text. -/
theorem request_prefix_iff (history : List Entry) (e e' : Spoken) :
    requestMessages false history e.message e.image ++ [e.reply parse] <+:
        requestMessages false (history ++ e.entries parse) e'.message e'.image ↔ e.message ≠ [] := by
  rw [← userMessage_eq_iff e.message e.image, requestMessages_eq, requestMessages_eq, List.map_append]
  have hentries : (e.entries parse).map historyMessage =
      [historyMessage ⟨.user, e.message, if e.image ≠ [] then some e.image else none⟩, e.reply parse] := rfl
  simp only [hentries, Bool.false_eq_true, if_false, List.nil_append, List.append_assoc, List.prefix_append_right_inj]
  simp [List.cons_prefix_cons]

theorem stable_cons (a b : List Message) (requests : List (List Message)) (r : Message) (replies : List Message) :
    Stable (a :: b :: requests) (r :: replies) ↔ a ++ [r] <+: b ∧ Stable (b :: requests) replies := by
  constructor
  · intro h
    exact ⟨h 0 a b r rfl rfl rfl, fun k request next reply hk hn hr => h (k + 1) request next reply hk hn hr⟩
  · rintro ⟨h0, h⟩ k request next reply hk hn hr
    cases k with
    | zero =>
      cases hk
      cases hn
      cases hr
      exact h0
    | succ k => exact h k request next reply hk hn hr

/-- The requests of a conversation, two turns at a time. -/
theorem stable_requests : ∀ (turns : List Spoken) (history : List Entry),
    Stable ((requests parse history turns).map Sent.messages) (turns.map (Spoken.reply parse)) ↔
      ∀ e ∈ turns.dropLast, e.message ≠ []
  | [], history => iff_of_true (fun k _ _ _ hk => by cases hk) fun e he => absurd he List.not_mem_nil
  | [e], history => iff_of_true (fun k _ _ _ _ hn => by cases hn) fun e he => absurd he List.not_mem_nil
  | e :: e' :: turns, history => by
    have hrest := stable_requests (e' :: turns) (history ++ e.entries parse)
    simp only [requests, List.map_cons] at hrest ⊢
    rw [stable_cons, hrest, request_prefix_iff, List.dropLast_cons_cons, List.forall_mem_cons]

end Encodings

/-- **When a turn is always sent the same way**: in every conversation, a request begins with the one before and its
reply exactly when every turn but the last has a text. -/
theorem stable_iff (parse : Parse) (turns : List Spoken) : ∃ s, exec (step parse) init (script turns) = some s ∧
    (Stable (s.sent.map Sent.messages) (turns.map (Spoken.reply parse)) ↔ ∀ e ∈ turns.dropLast, e.message ≠ []) :=
  ⟨_, exec_script turns [] [], stable_requests turns []⟩

/-- An image without a text, -/
def imageTurn : Spoken := ⟨[], "data:,".toList, [hiText], .inr (by decide)⟩

/-- and a question about it. -/
def textTurn : Spoken := ⟨"What is this?".toList, [], [hiText], .inl (by decide)⟩

/-- The image is sent again with an empty text. -/
theorem stable_imageTurn : ¬∀ (parse : Parse) (turns : List Spoken) (s : State),
    exec (step parse) init (script turns) = some s →
    Stable (s.sent.map Sent.messages) (turns.map (Spoken.reply parse)) := by
  intro h
  have hstable := h hiParse [imageTurn, textTurn] _ (exec_script _ [] [])
  have hmessage : imageTurn.message ≠ [] := (stable_requests _ []).mp hstable imageTurn (by simp)
  exact hmessage (by decide)

end LaManchaland.Ui.Chat
