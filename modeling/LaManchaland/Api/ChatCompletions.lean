import LaManchaland.Api.Proxy
import LaManchaland.Lib.GoJson

/-!
# The chat route

`handleChatCompletions` decodes the body of the client into a map, sets its member `stream` to a boolean, and sends the
map on; the response of the engine is relayed, with the headers of an event stream when `stream` is true.

* `answers_iff`: the handler answers a body as it should exactly when the body is not `null` and, if it is an object,
  the decoder takes it. The map stays nil for `null`, and the assignment to it is a panic.
* `keepsMeaning_iff`: the engine is sent what the client meant, `stream` apart, exactly when the decoder takes the
  object, its numbers are shortest decimals of doubles and its strings have no half surrogate pairs.
-/

namespace LaManchaland.Api

open Fields
open Json (canon kept Fixed)
open JsonText (Value CodePoint Number codePoint readText)
open GoJson
open Decimal (written)
open Float64 (nearest)
open Llmserver (itoa)
open Runs (exec)

/-! ## The handler -/

/-- The key of the member that the handler sets. -/
def streamKey : List CodePoint := "stream".toList.map codePoint

/-- `x == true` for an `interface{}`; a key that is absent gives nil. -/
def equalsTrue : Option Value → Bool
  | some (.bool b) => b
  | _ => false

/-- The request body of the handler; the assignment to the nil map is a panic. -/
def chatBody (body : List UInt8) : Except Halt GoMap :=
  match unmarshal body with
  | none => .error (.error (respondError 400 "invalid JSON"))
  | some none => .error .panic
  | some (some reqBody) => .ok (setKey streamKey (.bool (equalsTrue (get streamKey reqBody))) reqBody)

/-- The request to the engine. -/
def chatRequest (s : Llmserver.Server) (r : Request) : Except Halt Outgoing :=
  chatProxy s r fun body => (chatBody body).map marshal

/-- Whether the request that is sent asks for a stream. -/
def asksStream (r : Request) : Bool :=
  match r.body.map chatBody with
  | some (.ok reqBody) => equalsTrue (get streamKey reqBody)
  | _ => false

/-- A response, of the engine or to the client. -/
structure Relayed where
  status : Nat
  header : List (String × List String)
  body : List UInt8
  deriving DecidableEq

def eventStream : List (String × List String) :=
  [("Content-Type", ["text/event-stream"]), ("Cache-Control", ["no-cache"]), ("Connection", ["keep-alive"]),
    ("X-Accel-Buffering", ["no"])]

/-- `handleChatCompletions`, whose client gets a response of the engine, or none. -/
def handleChatCompletions (s : Llmserver.Server) (r : Request) (engine : Outgoing → Option Relayed) :
    Except Halt Relayed :=
  match chatRequest s r with
  | .error h => .error h
  | .ok out =>
    match engine out with
    | none => .error (.error (respondError 502 "failed to connect to inference engine"))
    | some resp => .ok { resp with header := if asksStream r then eventStream else resp.header }

/-! ## The decoder -/

/-- What the decoder takes. -/
structure Decodable (fields : List (List CodePoint × Value)) : Prop where
  depth : (Json.obj fields).depth ≤ maxNestingDepth
  /-- No number is too large for a double. -/
  range : ∀ n ∈ (Json.obj fields).numbers, ∃ v, nearest n.mag = some v

/-- What the handler makes of an object. -/
def edited (fields : List (List CodePoint × Value)) : GoMap :=
  let reqBody := (kept goString fields).map (Prod.map id goValue)
  setKey streamKey (.bool (equalsTrue (get streamKey reqBody))) reqBody

section Decoder

variable {body : List UInt8} {fields : List (List CodePoint × Value)}

theorem unmarshal_obj (h : readText (Utf8.decode body) = some (.obj fields)) :
    (Decodable fields ∧ unmarshal body = some (some ((kept goString fields).map (Prod.map id goValue)))) ∨
      (¬Decodable fields ∧ unmarshal body = none) := by
  have hrange : ((Json.obj fields).numbers.all fun n => (parseFloat n).isSome) = true ↔
      ∀ n ∈ (Json.obj fields).numbers, ∃ v, nearest n.mag = some v := by
    simp only [List.all_eq_true, parseFloat, Option.isSome_map, Option.isSome_iff_exists]
  by_cases hdepth : maxNestingDepth < (Json.obj fields).depth
  · refine .inr ⟨fun hd => absurd hd.depth (not_le.mpr hdepth), ?_⟩
    rw [unmarshal, h]
    exact if_pos hdepth
  · by_cases hall : ((Json.obj fields).numbers.all fun n => (parseFloat n).isSome) = true
    · refine .inl ⟨⟨not_lt.mp hdepth, hrange.mp hall⟩, ?_⟩
      rw [unmarshal, h]
      simp only [if_neg hdepth, if_pos hall]
    · refine .inr ⟨fun hd => hall (hrange.mpr hd.range), ?_⟩
      rw [unmarshal, h]
      simp only [if_neg hdepth, if_neg hall]

theorem chatBody_obj (h : readText (Utf8.decode body) = some (.obj fields)) (hd : Decodable fields) :
    chatBody body = .ok (edited fields) := by
  have hread := ((unmarshal_obj h).resolve_right fun h' => h'.1 hd).2
  rw [chatBody, hread]
  rfl

theorem chatBody_undecodable (h : readText (Utf8.decode body) = some (.obj fields)) (hd : ¬Decodable fields) :
    chatBody body = .error (.error (respondError 400 "invalid JSON")) := by
  have hread := ((unmarshal_obj h).resolve_left fun h' => hd h'.1).2
  rw [chatBody, hread]

theorem chatBody_null (h : readText (Utf8.decode body) = some .null) : chatBody body = .error .panic := by
  have hread : unmarshal body = some none := by
    rw [unmarshal, h]
    rfl
  rw [chatBody, hread]

/-- Everything else is rejected. -/
theorem chatBody_other (hnull : readText (Utf8.decode body) ≠ some .null)
    (hobj : ∀ fields, readText (Utf8.decode body) ≠ some (.obj fields)) :
    chatBody body = .error (.error (respondError 400 "invalid JSON")) := by
  have hread : unmarshal body = none := by
    unfold unmarshal
    split
    · rfl
    · rename_i v hv
      split
      · rfl
      · cases v with
        | null => exact absurd hv hnull
        | obj fields => exact absurd hv (hobj fields)
        | _ => rfl
  rw [chatBody, hread]

end Decoder

/-! ## The request to the engine -/

/-- Where the engine listens. -/
theorem validPort_iff {port : Int} : validPort ("127.0.0.1:" ++ itoa port).toList = true ↔ 0 ≤ port := by
  have hchars : ("127.0.0.1:" ++ itoa port).toList = "127.0.0.1".toList ++ ':' :: (itoa port).toList := by
    rw [String.toList_append]
    rfl
  have hlast : Cut.afterLast ':' ("127.0.0.1".toList ++ ':' :: (itoa port).toList) = (itoa port).toList := by
    rw [Cut.afterLast, Cut.lastIdx_append_cons (colon_not_mem_itoa port)]
    rfl
  rw [hchars, validPort, if_pos (by simp), hlast]
  cases port with
  | ofNat n =>
    refine iff_of_true (List.all_eq_true.mpr fun c hc => ?_) (Int.natCast_nonneg n)
    exact Digits.isDigit_of_mem_repr hc
  | negSucc n =>
    refine iff_of_false ?_ (by omega)
    rw [itoa_negSucc]
    exact Bool.false_ne_true

/-- The request for a map. -/
def chatOutgoing (port : Int) (reqBody : GoMap) : Outgoing where
  method := "POST"
  url := ⟨"http", "127.0.0.1:" ++ itoa port, "/v1/chat/completions", ""⟩
  host := "127.0.0.1:" ++ itoa port
  header := [("Content-Type", "application/json"), ("Accept", "application/json")]
  body := marshal reqBody

section Run

variable {port : Int} {s : Llmserver.Server} {r : Request} {body : List UInt8}
  {fields : List (List CodePoint × Value)}

/-- **What the handler does with a body** while the model is running. -/
theorem chatRequest_eq (hs : s.backendURL = "http://127.0.0.1:" ++ itoa port) (hup : s.isRunning = true)
    (hroute : r.route = some .chatCompletions) (hbody : r.body = some body) :
    chatRequest s r =
      match chatBody body with
      | .error h => .error h
      | .ok reqBody =>
        if 0 ≤ port then .ok (chatOutgoing port reqBody) else .error (.error (respondError 500 "proxy error")) := by
  have hparse := @parseURL_exact .chatCompletions port _ rfl
  have hpath : r.path = "/v1/chat/completions" := path_of_route hroute rfl
  rw [chatRequest, chatProxy, exactProxy, hup, hbody]
  cases hread : chatBody body with
  | error h =>
    simp only [hread, Except.map]
    rfl
  | ok reqBody =>
    simp only [hread, Except.map, newRequest, hs, hpath, hparse, validPort_iff]
    by_cases hport : 0 ≤ port
    · simp only [if_pos hport]
      rfl
    · simp only [if_neg hport]
      rfl

/-! ## Answers -/

/-- A response comes for the body: a rejection when it is no object, and a forwarded request when it is one. -/
structure Answers (s : Llmserver.Server) (r : Request) (engine : Outgoing → Option Relayed) (body : List UInt8) :
    Prop where
  noPanic : handleChatCompletions s r engine ≠ .error .panic
  rejected : (∀ fields, readText (Utf8.decode body) ≠ some (.obj fields)) →
    ∃ resp, handleChatCompletions s r engine = .error (.error resp) ∧ resp.status = 400
  forwarded : ∀ fields, readText (Utf8.decode body) = some (.obj fields) → ∃ out, chatRequest s r = .ok out

theorem handle_of_error {h : Halt} (hreq : chatRequest s r = .error h) (engine : Outgoing → Option Relayed) :
    handleChatCompletions s r engine = .error h := by
  rw [handleChatCompletions, hreq]

theorem handle_of_ok {out : Outgoing} (hreq : chatRequest s r = .ok out) (engine : Outgoing → Option Relayed) :
    handleChatCompletions s r engine ≠ .error .panic := by
  rw [handleChatCompletions, hreq]
  show (match engine out with | none => _ | some resp => _) ≠ _
  cases engine out with
  | none => exact fun h => by cases h
  | some resp => exact fun h => by cases h

theorem answers_server_iff (hs : s.backendURL = "http://127.0.0.1:" ++ itoa port) (hup : s.isRunning = true)
    (hroute : r.route = some .chatCompletions) (hbody : r.body = some body) (engine : Outgoing → Option Relayed) :
    Answers s r engine body ↔ readText (Utf8.decode body) ≠ some .null ∧
      ∀ fields, readText (Utf8.decode body) = some (.obj fields) → Decodable fields ∧ 0 ≤ port := by
  have heq := chatRequest_eq hs hup hroute hbody
  constructor
  · intro h
    refine ⟨fun hnull => ?_, fun fields hobj => ?_⟩
    · rw [chatBody_null hnull] at heq
      exact h.noPanic (handle_of_error heq engine)
    · obtain ⟨out, hout⟩ := h.forwarded fields hobj
      by_cases hd : Decodable fields
      · rw [chatBody_obj hobj hd, hout] at heq
        refine ⟨hd, ?_⟩
        by_contra hport
        simp only [if_neg hport] at heq
        cases heq
      · rw [chatBody_undecodable hobj hd, hout] at heq
        cases heq
  · rintro ⟨hnull, hfields⟩
    by_cases hobj : ∃ fields, readText (Utf8.decode body) = some (.obj fields)
    · obtain ⟨fields, hobj⟩ := hobj
      obtain ⟨hd, hport⟩ := hfields fields hobj
      rw [chatBody_obj hobj hd] at heq
      simp only [if_pos hport] at heq
      exact ⟨handle_of_ok heq engine, fun h => absurd hobj (h fields), fun _ _ => ⟨_, heq⟩⟩
    · have hother : ∀ fields, readText (Utf8.decode body) ≠ some (.obj fields) := fun fields h => hobj ⟨fields, h⟩
      rw [chatBody_other hnull hother] at heq
      have hhandle := handle_of_error heq engine
      refine ⟨fun h => ?_, fun _ => ⟨_, hhandle, rfl⟩, fun fields h => absurd ⟨fields, h⟩ hobj⟩
      rw [hhandle] at h
      cases h

/-- **Which bodies are answered**: in every run of the manager, while the model is running, the chat handler answers a
body exactly when it is not `null` and, if it is an object, the decoder takes it and the port is one. -/
theorem answers_iff (port : Int) (ls : List Llmserver.Label) (sys : Llmserver.Sys)
    (hrun : exec Llmserver.step (Llmserver.sysInit port) ls = some sys) (hup : sys.machine.srv.isRunning = true)
    (r : Request) (hroute : r.route = some .chatCompletions) (body : List UInt8) (hbody : r.body = some body)
    (engine : Outgoing → Option Relayed) :
    Answers sys.machine.srv r engine body ↔ readText (Utf8.decode body) ≠ some .null ∧
      ∀ fields, readText (Utf8.decode body) = some (.obj fields) → Decodable fields ∧ 0 ≤ port :=
  answers_server_iff (backendURL_exec hrun) hup hroute hbody engine

/-- A request of a client with a body. -/
def chatRequestOf (body : List UInt8) : Request :=
  ⟨"POST", [⟨"v1", "v1"⟩, ⟨"chat", "chat"⟩, ⟨"completions", "completions"⟩], "", some body⟩

/-- An array is rejected. -/
theorem answers_iff_array :
    Answers upServer (chatRequestOf (Utf8.encode ['[', ']'])) (fun _ => none) (Utf8.encode ['[', ']']) := by
  have hread : readText (Utf8.decode (Utf8.encode ['[', ']'])) = some (.arr []) := by
    rw [Utf8.decode_encode]
    rfl
  refine (answers_iff 8081 upRun upSys exec_upRun rfl _ rfl _ rfl fun _ => none).mpr ⟨?_, fun fields h => ?_⟩
  · rw [hread]
    exact fun h => by cases h
  · rw [hread] at h
    cases h

/-- The body `null` ends in a panic. -/
theorem not_answers :
    ¬∀ (port : Int) (ls : List Llmserver.Label) (sys : Llmserver.Sys),
      exec Llmserver.step (Llmserver.sysInit port) ls = some sys → sys.machine.srv.isRunning = true →
      ∀ r : Request, r.route = some .chatCompletions → ∀ body : List UInt8, r.body = some body →
      ∀ engine : Outgoing → Option Relayed, Answers sys.machine.srv r engine body := by
  intro h
  have hread : readText (Utf8.decode (Utf8.encode ['n', 'u', 'l', 'l'])) = some .null := by
    rw [Utf8.decode_encode]
    rfl
  have hanswers := h 8081 upRun upSys exec_upRun rfl (chatRequestOf (Utf8.encode ['n', 'u', 'l', 'l'])) rfl _ rfl
    fun _ => none
  exact ((answers_server_iff (backendURL_exec exec_upRun) rfl rfl rfl _).mp hanswers).1 hread

/-! ## Meaning -/

/-- The members that a client means. -/
def clientMembers (fields : List (List CodePoint × Value)) : List (List CodePoint × Value) :=
  (kept id fields).map (Prod.map id (canon id id))

/-- The request that is sent and its response, for the members that a client sends: `members` is what the engine
understands. -/
structure Forwards (s : Llmserver.Server) (r : Request) (fields : List (List CodePoint × Value)) (out : Outgoing)
    (members : List (List CodePoint × Value)) : Prop where
  request : chatRequest s r = .ok out
  object : meaning out.body = some (.obj members)
  /-- The member `stream` is whether the client's is true. -/
  stream : get streamKey members = some (.bool (equalsTrue (get streamKey (clientMembers fields))))
  /-- Every other member is the client's, at every depth. -/
  others : ∀ k ≠ streamKey, get k members = get k (clientMembers fields)
  /-- The response has the headers of an event stream when `stream` is true, and those of the engine when it is not. -/
  relayed : ∀ engine resp, engine out = some resp → handleChatCompletions s r engine =
    .ok ⟨resp.status, if equalsTrue (get streamKey members) then eventStream else resp.header, resp.body⟩
  /-- What is sent is sent again as it is. -/
  again : ∀ r' : Request, r'.route = some .chatCompletions → r'.body = some out.body → chatRequest s r' = .ok out

/-- The engine is sent what the client meant. -/
def KeepsMeaning (s : Llmserver.Server) (r : Request) (fields : List (List CodePoint × Value)) : Prop :=
  ∃ out members, Forwards s r fields out members

/-- A member that the decoder leaves alone. -/
structure Portable (k : List CodePoint) (v : Value) : Prop where
  key : ∀ p ∈ k, p.isSurrogate = false
  strings : ∀ s ∈ v.strings, ∀ p ∈ s, p.isSurrogate = false
  numbers : ∀ n ∈ v.numbers, IsShortest n.mag

theorem portable_iff {k : List CodePoint} {v : Value} : goString k = k ∧ Fixed sent goString v ↔ Portable k v := by
  constructor
  · rintro ⟨hk, hv⟩
    exact ⟨goString_eq_iff.mp hk, fun s hs => goString_eq_iff.mp (hv.strings s hs), fun n hn =>
      sent_eq_iff.mp (hv.numbers n hn)⟩
  · intro h
    exact ⟨goString_eq_iff.mpr h.key, fun n hn => sent_eq_iff.mpr (h.numbers n hn), fun s hs =>
      goString_eq_iff.mpr (h.strings s hs)⟩

theorem equalsTrue_canon (g : Number → Number) (h : List CodePoint → List CodePoint) (v : Option Value) :
    equalsTrue (v.map (canon g h)) = equalsTrue v := by
  cases v with
  | none => rfl
  | some v => cases v <;> rfl

theorem goString_streamKey : goString streamKey = streamKey := goString_text _

/-- What the engine understands. -/
def sentMembers (fields : List (List CodePoint × Value)) : List (List CodePoint × Value) :=
  (edited fields).map (Prod.map id (canon written goString))

theorem get_sentMembers (fields : List (List CodePoint × Value)) (k : List CodePoint) :
    get k (sentMembers fields) = if k = streamKey then
        some (.bool (equalsTrue (get streamKey (kept goString fields))))
      else get k ((kept goString fields).map (Prod.map id (canon sent goString))) := by
  have hvalue : canon written goString ∘ goValue = canon sent goString := funext canon_goValue
  rw [sentMembers, edited, get_map, get_setKey, get_map, get_map, get_map]
  by_cases hk : k = streamKey
  · rw [if_pos hk, if_pos hk, goValue, equalsTrue_canon]
    rfl
  · rw [if_neg hk, if_neg hk, Option.map_map, hvalue]

/-- A request of which the decoder takes the body. -/
theorem forwards_edited (hs : s.backendURL = "http://127.0.0.1:" ++ itoa port) (hup : s.isRunning = true)
    (hroute : r.route = some .chatCompletions) (hbody : r.body = some body)
    (hobj : readText (Utf8.decode body) = some (.obj fields)) (hd : Decodable fields) (hport : 0 ≤ port) :
    chatRequest s r = .ok (chatOutgoing port (edited fields)) ∧
      meaning (chatOutgoing port (edited fields)).body = some (.obj (sentMembers fields)) ∧
      (∀ engine resp, engine (chatOutgoing port (edited fields)) = some resp → handleChatCompletions s r engine =
        .ok ⟨resp.status, if equalsTrue (get streamKey (sentMembers fields)) then eventStream else resp.header,
          resp.body⟩) ∧
      ∀ r' : Request, r'.route = some .chatCompletions → r'.body = some (marshal (edited fields)) →
        chatRequest s r' = .ok (chatOutgoing port (edited fields)) := by
  have hread := ((unmarshal_obj hobj).resolve_right fun h' => h'.1 hd).2
  have hdecoded : Decoded (edited fields) := (decoded_unmarshal hread).setBool goString_streamKey _
  have hreq : chatRequest s r = .ok (chatOutgoing port (edited fields)) := by
    rw [chatRequest_eq hs hup hroute hbody, chatBody_obj hobj hd]
    exact if_pos hport
  have hstream : get streamKey (edited fields) =
      some (.bool (equalsTrue (get streamKey ((kept goString fields).map (Prod.map id goValue))))) := by
    rw [edited, get_setKey, if_pos rfl]
  refine ⟨hreq, meaning_marshal hdecoded, fun engine resp hengine => ?_, fun r' hroute' hbody' => ?_⟩
  · have hasks : asksStream r = equalsTrue (get streamKey (sentMembers fields)) := by
      rw [asksStream, hbody, Option.map_some, chatBody_obj hobj hd, sentMembers, get_map, equalsTrue_canon]
    rw [handleChatCompletions, hreq]
    simp only [hengine, hasks]
  · have hagain : chatBody (marshal (edited fields)) = .ok (edited fields) := by
      have hsame : setKey streamKey (.bool (equalsTrue (get streamKey (edited fields)))) (edited fields) =
          edited fields := setKey_of_get hdecoded.increasing (by rw [hstream]; rfl)
      rw [chatBody, unmarshal_marshal hdecoded]
      exact congrArg Except.ok hsame
    rw [chatRequest_eq hs hup hroute' hbody', hagain]
    exact if_pos hport

theorem keepsMeaning_server_iff (hs : s.backendURL = "http://127.0.0.1:" ++ itoa port) (hup : s.isRunning = true)
    (hroute : r.route = some .chatCompletions) (hbody : r.body = some body)
    (hobj : readText (Utf8.decode body) = some (.obj fields)) :
    KeepsMeaning s r fields ↔ Decodable fields ∧ 0 ≤ port ∧
      ∀ k ≠ streamKey, ∀ v, get k (clientMembers fields) = some v → Portable k v := by
  have heq := chatRequest_eq hs hup hroute hbody
  have hothers := @Json.get_kept_iff _ _ _ sent goString sent_idem goString_idem fields streamKey goString_streamKey
  constructor
  · rintro ⟨out, members, h⟩
    have hreq := h.request
    by_cases hd : Decodable fields
    · rw [chatBody_obj hobj hd, hreq] at heq
      by_cases hport : 0 ≤ port
      · obtain ⟨hreq', hmeaning, -⟩ := forwards_edited hs hup hroute hbody hobj hd hport
        rw [hreq, Except.ok.injEq] at hreq'
        have hmembers : members = sentMembers fields := by
          have hobject := h.object
          rw [hreq', hmeaning, Option.some.injEq, Json.obj.injEq] at hobject
          exact hobject.symm
        refine ⟨hd, hport, fun k hk v hv => portable_iff.mp (hothers.mp (fun k hk => ?_) k hk v hv)⟩
        have hsame := h.others k hk
        rwa [hmembers, get_sentMembers, if_neg hk] at hsame
      · simp only [if_neg hport] at heq
        cases heq
    · rw [chatBody_undecodable hobj hd, hreq] at heq
      cases heq
  · rintro ⟨hd, hport, hportable⟩
    obtain ⟨hreq, hmeaning, hrelayed, hagain⟩ := forwards_edited hs hup hroute hbody hobj hd hport
    have hsame := hothers.mpr fun k hk v hv => portable_iff.mpr (hportable k hk v hv)
    refine ⟨_, sentMembers fields, hreq, hmeaning, ?_, fun k hk => ?_, hrelayed, hagain⟩
    · have hkept := Json.kept_of_members goString_streamKey fun k hk v hv =>
        (portable_iff.mpr (hportable k hk v hv)).1
      rw [get_sentMembers, if_pos rfl, hkept, clientMembers, get_map, equalsTrue_canon]
    · rw [get_sentMembers, if_neg hk]
      exact hsame k hk

/-- **Which objects keep their meaning**: in every run of the manager, while the model is running, the engine is sent
what the client meant exactly when the decoder takes the object, the port is one, and the decoder leaves alone the
strings and the numbers of every member but `stream`. -/
theorem keepsMeaning_iff (port : Int) (ls : List Llmserver.Label) (sys : Llmserver.Sys)
    (hrun : exec Llmserver.step (Llmserver.sysInit port) ls = some sys) (hup : sys.machine.srv.isRunning = true)
    (r : Request) (hroute : r.route = some .chatCompletions) (body : List UInt8) (hbody : r.body = some body)
    (fields : List (List CodePoint × Value)) (hobj : readText (Utf8.decode body) = some (.obj fields)) :
    KeepsMeaning sys.machine.srv r fields ↔ Decodable fields ∧ 0 ≤ port ∧
      ∀ k ≠ streamKey, ∀ v, get k (clientMembers fields) = some v → Portable k v :=
  keepsMeaning_server_iff (backendURL_exec hrun) hup hroute hbody hobj

end Run

/-! A body that keeps its meaning, and one that does not. -/

def modelKey : List CodePoint := "model".toList.map codePoint

def seedKey : List CodePoint := "seed".toList.map codePoint

def modelBody : List UInt8 := Utf8.encode "\x7b\"model\":\"a\",\"seed\":42,\"stream\":true\x7d".toList

def modelFields : List (List CodePoint × Value) :=
  [(modelKey, .str [codePoint 'a']), (seedKey, .num ⟨false, 42⟩), (streamKey, .bool true)]

/-- A number without a point, as it is read. -/
theorem seed_eq {digits : List Char} {n : ℕ} (h : Digits.decValue (digits ++ []) = n) :
    (Digits.decValue (digits ++ []) : ℚ≥0) * 10 ^ (0 - ([] : List Char).length : ℤ) = n := by
  rw [h, List.length_nil, Nat.cast_zero, sub_zero, zpow_zero, mul_one]

theorem readText_modelBody : readText (Utf8.decode modelBody) = some (.obj modelFields) := by
  have hseed := @seed_eq "42".toList 42 rfl
  rw [Nat.cast_ofNat] at hseed
  rw [modelBody, Utf8.decode_encode, modelFields, ← hseed]
  rfl

/-- The model, the seed and the stream are sent on. -/
theorem keepsMeaning_iff_model : KeepsMeaning upServer (chatRequestOf modelBody) modelFields := by
  have hmembers : clientMembers modelFields = modelFields := rfl
  refine (keepsMeaning_iff 8081 upRun upSys exec_upRun rfl _ rfl _ rfl _ readText_modelBody).mpr
    ⟨⟨by decide, fun n hn => ?_⟩, by decide, fun k hk v hv => ?_⟩
  · obtain rfl : n = ⟨false, 42⟩ := List.mem_singleton.mp hn
    exact ⟨(42 : ℕ), Float64.nearest_natCast (by norm_num)⟩
  · rw [hmembers, modelFields, get_cons, get_cons, get_cons, if_neg hk] at hv
    split at hv
    · rename_i hmodel
      cases hv
      refine ⟨hmodel ▸ goString_eq_iff.mp (goString_text _), fun s hs => ?_, fun n hn => by cases hn⟩
      exact List.mem_singleton.mp hs ▸ goString_eq_iff.mp (goString_text ['a'])
    split at hv
    · rename_i hseed
      cases hv
      refine ⟨hseed ▸ goString_eq_iff.mp (goString_text _), fun s hs => (by cases hs), fun n hn => ?_⟩
      obtain rfl : n = ⟨false, 42⟩ := List.mem_singleton.mp hn
      exact @isShortest_natCast 42 (by norm_num)
    · cases hv

def seedBody : List UInt8 := Utf8.encode "\x7b\"seed\":9007199254740993\x7d".toList

def seedFields : List (List CodePoint × Value) := [(seedKey, .num ⟨false, 9007199254740993⟩)]

theorem readText_seedBody : readText (Utf8.decode seedBody) = some (.obj seedFields) := by
  have hseed := @seed_eq "9007199254740993".toList 9007199254740993 rfl
  rw [Nat.cast_ofNat] at hseed
  rw [seedBody, Utf8.decode_encode, seedFields, ← hseed]
  rfl

/-- The seed `2 ^ 53 + 1` is not sent on. -/
theorem not_keepsMeaning :
    ¬∀ (port : Int) (ls : List Llmserver.Label) (sys : Llmserver.Sys),
      exec Llmserver.step (Llmserver.sysInit port) ls = some sys → sys.machine.srv.isRunning = true →
      ∀ r : Request, r.route = some .chatCompletions → ∀ body : List UInt8, r.body = some body →
      ∀ fields, readText (Utf8.decode body) = some (.obj fields) → KeepsMeaning sys.machine.srv r fields := by
  intro h
  have hkeeps := h 8081 upRun upSys exec_upRun rfl (chatRequestOf seedBody) rfl _ rfl _ readText_seedBody
  have hportable := ((keepsMeaning_server_iff (backendURL_exec exec_upRun) rfl rfl rfl readText_seedBody).mp hkeeps).2.2
    seedKey (by decide) (.num ⟨false, 9007199254740993⟩) rfl
  have hsent : sent ⟨false, 9007199254740993⟩ ≠ ⟨false, 9007199254740993⟩ := by decide +kernel
  exact hsent (sent_eq_iff.mpr (hportable.numbers _ (List.mem_singleton.mpr rfl)))

end LaManchaland.Api
