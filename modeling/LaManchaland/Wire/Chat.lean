import LaManchaland.Api.ChatCompletions
import LaManchaland.Lib.JsJson
import LaManchaland.Ui.Chat
import LaManchaland.Ui.Dialog

/-!
# A message on its way to the engine

`sendChatMessage` writes its body with `JSON.stringify`, `handleChatCompletions` decodes it into a map and sends the map
on, and the page shows what comes back: it reads the stream of a response that is ok, and the bubble of the assistant
has the message of any other one.

`roundTrip`: whatever the history, the message, the image and the saved settings are, as long as no half of a surrogate
pair stands alone in a text and the port is not negative, a manager that is running gets the engine a body that is
decoded to the very object that the page wrote, as a stream. Otherwise the bubble names the reason. No request of the
page is rejected for its body.
-/

namespace LaManchaland.Wire

open Fields
open JsonText (Value CodePoint Number codePoint readText)
open Json (canon)
open GoJson (GoMap Decoded unmarshal marshal)
open JsJson (Plain stringify plain_null plain_bool plain_num plain_str plain_arr plain_obj)
open Float64 (IsDouble)
open Llmserver (itoa)
open Runs (exec)
open Ui.Chat (Text Role Part Content Message Entry requestMessages)
open Ui.ModelSettings (Settings Fields initialSettings saveModelSettings chatBody unlessDefault IsNum isNum_ofRat
  isNum_or isNum_parseFloat isWhole_parseInt isDouble_abs jsNumber)
open Api (ErrorDetail Response Outgoing Relayed Halt respondError chatRequest chatRequestOf chatOutgoing streamKey
  equalsTrue eventStream handleChatCompletions)

/-! ## The body -/

def key (k : String) : List CodePoint := k.toList.map codePoint

/-- A text without halves of surrogate pairs. -/
def textValue (t : Text) : Value := .str (t.map codePoint)

def roleText : Role → Text
  | .system => "system".toList
  | .user => "user".toList
  | .assistant => "assistant".toList

/-- An object literal. -/
def object (members : List (String × Value)) : Value := .obj (members.map (Prod.map key id))

def partValue : Part → Value
  | .image url => object [("type", textValue "image_url".toList), ("image_url", object [("url", textValue url)])]
  | .text text => object [("type", textValue "text".toList), ("text", textValue text)]

def contentValue : Content → Value
  | .text text => textValue text
  | .parts parts => .arr (parts.map partValue)

def messageValue (m : Message) : Value :=
  object [("role", textValue (roleText m.role)), ("content", contentValue m.content)]

/-- A number of a body; what is not finite is `null`. -/
def numberValue : Option ℚ → Value
  | none => .null
  | some q => .num (jsNumber q)

/-- The members that `sendChatMessage` starts with. -/
def baseMembers (messages : List Message) : List (String × Value) :=
  [("model", textValue "la-manchaland".toList), ("messages", .arr (messages.map messageValue)), ("stream", .bool true)]

/-- The object that `sendChatMessage` writes. -/
def requestObject (messages : List Message) (s : Settings) : Value :=
  object (baseMembers messages ++ (chatBody s).map (Prod.map id numberValue))

def requestBody (messages : List Message) (s : Settings) : List UInt8 :=
  Utf8.encode (stringify (requestObject messages s))

/-! ## The answer -/

/-- The body that `respondError` writes; the encoder ends it with a newline. -/
def errorBody (e : ErrorDetail) : List UInt8 :=
  Utf8.encode (JsonText.write Decimal.numberText GoJson.quote (object [("error", object
    [("message", textValue e.message.toList), ("type", textValue e.type.toList), ("code", .num ⟨false, e.code⟩)])])
    ++ ['\n'])

/-- What comes over the connection; after a panic nothing does. -/
def answerOf : Except Halt Relayed → Option Relayed
  | .ok resp => some resp
  | .error (.error e) => some ⟨e.status, [("Content-Type", ["application/json"])], errorBody e.body⟩
  | .error .panic => none

/-- A property of a value that has been parsed; the last member counts. -/
def property (k : String) : Value → Option Value
  | .obj fields => get (key k) (collect fields)
  | _ => none

def truthy : Value → Bool
  | .null => false
  | .bool b => b
  | .num n => Float64.nearest n.mag ≠ some 0
  | .str s => s ≠ []
  | .arr _ => true
  | .obj _ => true

/-- A value as a text; `convert` is what the language makes of one that is not a string. -/
def toText (convert : Value → Text) : Value → Text
  | .str s => s.map GoJson.toRune
  | v => convert v

/-- The message when the response has none. -/
def failedMessage : Text := "Failed to get response".toList

/-- The bubble for a response that is not ok. -/
def errorBubble (convert : Value → Text) (body : List UInt8) : Text :=
  let message := ((readText (Utf8.decode body)).bind (property "error")).bind (property "message")
  "Error: ".toList ++ message.elim failedMessage fun message =>
    if truthy message then toText convert message else failedMessage

/-- What the page goes on with: a stream, or the last text of the bubble. -/
inductive Outcome where
  | reads (body : List UInt8)
  | bubble (text : Text)
  deriving DecidableEq

/-- `sendChatMessage` after its request; `failure` is the message of the error when there is no response. -/
def afterFetch (convert : Value → Text) (failure : Text) : Option Relayed → Outcome
  | none => .bubble ("Error: ".toList ++ failure)
  | some resp =>
    if 200 ≤ resp.status ∧ resp.status < 300 then .reads resp.body else .bubble (errorBubble convert resp.body)

/-! ## What is written -/

/-- The settings that the page may have. -/
def OfPage (s : Settings) : Prop := s = initialSettings ∨ ∃ f, s = saveModelSettings f

section Written

/-- The settings that a chat request carries are doubles. -/
theorem OfPage.isNum {s : Settings} (h : OfPage s) : IsNum s.temperature ∧ IsNum s.topP ∧ IsNum s.topK ∧
    IsNum s.repeatPenalty ∧ IsNum s.nPredict := by
  rcases h with rfl | ⟨f, rfl⟩
  · exact ⟨isNum_ofRat _, isNum_ofRat _, isNum_ofRat _, isNum_ofRat _, isNum_ofRat _⟩
  · exact ⟨isNum_parseFloat _, isNum_parseFloat _, isNum_or (isWhole_parseInt _).isNum (isNum_ofRat _),
      isNum_parseFloat _, isNum_or (isWhole_parseInt _).isNum (isNum_ofRat _)⟩

theorem plain_numberValue {a : Ui.ModelSettings.Num} (h : IsNum a) : Plain (numberValue a.toJSON) := by
  cases a with
  | nan => exact plain_null
  | inf negative => exact plain_null
  | fin v =>
    refine plain_num ?_
    show IsDouble (v.nnabs : ℚ)
    rw [Rat.coe_nnabs]
    exact isDouble_abs h

theorem plain_unlessDefault (k : String) {a : Ui.ModelSettings.Num} (h : IsNum a) (d : Ui.ModelSettings.Num) :
    ∀ p ∈ unlessDefault k a d, Plain (numberValue p.2) := by
  intro p hp
  unfold unlessDefault at hp
  split at hp
  · rw [List.mem_singleton.mp hp]
    exact plain_numberValue h
  · cases hp

theorem plain_object {members : List (String × Value)} (h : ∀ p ∈ members, Plain p.2) : Plain (object members) :=
  plain_obj (List.forall_mem_map.mpr fun p _ => ⟨p.1.toList, rfl⟩) (List.forall_mem_map.mpr h)

theorem depth_object_le {members : List (String × Value)} {m : Nat} (h : ∀ p ∈ members, p.2.depth ≤ m) :
    (object members).depth ≤ m + 1 := Json.depth_obj_le.mpr (List.forall_mem_map.mpr h)

theorem plain_part (p : Part) : Plain (partValue p) := by
  cases p with
  | image url =>
    refine plain_object (List.forall_mem_cons.mpr ⟨plain_str _, List.forall_mem_singleton.mpr ?_⟩)
    exact plain_object (List.forall_mem_singleton.mpr (plain_str url))
  | text text =>
    exact plain_object (List.forall_mem_cons.mpr ⟨plain_str _, List.forall_mem_singleton.mpr (plain_str text)⟩)

theorem plain_message (m : Message) : Plain (messageValue m) := by
  refine plain_object (List.forall_mem_cons.mpr ⟨plain_str _, List.forall_mem_singleton.mpr ?_⟩)
  cases m.content with
  | text text => exact plain_str text
  | parts parts => exact plain_arr (List.forall_mem_map.mpr fun p _ => plain_part p)

/-- **The body of the page** has doubles and texts only. -/
theorem plain_request (messages : List Message) {s : Settings} (hs : OfPage s) : Plain (requestObject messages s) := by
  obtain ⟨htemp, htopP, htopK, hrepeat, hpredict⟩ := hs.isNum
  refine plain_object (List.forall_mem_append.mpr ⟨?_, List.forall_mem_map.mpr fun p hp => ?_⟩)
  · exact List.forall_mem_cons.mpr ⟨plain_str _, List.forall_mem_cons.mpr
      ⟨plain_arr (List.forall_mem_map.mpr fun m _ => plain_message m), List.forall_mem_singleton.mpr (plain_bool true)⟩⟩
  · simp only [chatBody, List.mem_append] at hp
    rcases hp with (((hp | hp) | hp) | hp) | hp
    · exact plain_unlessDefault _ htemp _ p hp
    · exact plain_unlessDefault _ htopP _ p hp
    · exact plain_unlessDefault _ htopK _ p hp
    · exact plain_unlessDefault _ hrepeat _ p hp
    · exact plain_unlessDefault _ hpredict _ p hp

theorem depth_part (p : Part) : (partValue p).depth ≤ 2 := by
  cases p with
  | image url => exact depth_object_le (List.forall_mem_cons.mpr ⟨Nat.zero_le _, List.forall_mem_singleton.mpr
      (depth_object_le (List.forall_mem_singleton.mpr (Nat.zero_le 0)))⟩)
  | text text => exact depth_object_le (List.forall_mem_cons.mpr ⟨Nat.zero_le _, List.forall_mem_singleton.mpr
      (Nat.zero_le _)⟩)

theorem depth_message (m : Message) : (messageValue m).depth ≤ 4 := by
  refine depth_object_le (List.forall_mem_cons.mpr ⟨Nat.zero_le _, List.forall_mem_singleton.mpr ?_⟩)
  cases m.content with
  | text text => exact Nat.zero_le _
  | parts parts => exact Json.depth_arr_le.mpr (List.forall_mem_map.mpr fun p _ => depth_part p)

theorem depth_request (messages : List Message) (s : Settings) :
    (requestObject messages s).depth ≤ GoJson.maxNestingDepth := by
  refine le_trans (b := 6) (depth_object_le (List.forall_mem_append.mpr ⟨?_, List.forall_mem_map.mpr fun p _ => ?_⟩))
    (by decide)
  · exact List.forall_mem_cons.mpr ⟨Nat.zero_le _, List.forall_mem_cons.mpr
      ⟨Json.depth_arr_le.mpr (List.forall_mem_map.mpr fun m _ => depth_message m),
        List.forall_mem_singleton.mpr (Nat.zero_le _)⟩⟩
  · show (numberValue p.2).depth ≤ 5
    cases p.2 <;> exact Nat.zero_le _

theorem key_injective : Function.Injective key := by
  intro k k' h
  refine String.toList_injective (List.map_injective_iff.mpr (fun c c' hc => ?_) h)
  rw [← GoJson.toRune_codePoint c, hc, GoJson.toRune_codePoint]

/-- The members of an object under their keys. -/
theorem get_key (k : String) : ∀ members : List (String × Value),
    get (key k) (members.map (Prod.map key id)) = members.lookup k
  | [] => rfl
  | (k', v) :: members => by
    rw [List.map_cons, Prod.map_apply, get_cons, get_key k members, List.lookup_cons]
    by_cases hk : k = k'
    · rw [if_pos (congrArg key hk), beq_iff_eq.mpr hk]
      rfl
    · rw [if_neg fun h => hk (key_injective h), beq_eq_false_iff_ne.mpr hk]

/-- No setting is called `stream`. -/
theorem chatBody_ne (s : Settings) : ∀ p ∈ chatBody s, "stream" ≠ p.1 := by
  intro p hp
  have hkey : ∀ {k : String} {a d : Ui.ModelSettings.Num}, p ∈ unlessDefault k a d → p.1 = k := by
    intro k a d h
    unfold unlessDefault at h
    split at h
    · rw [List.mem_singleton.mp h]
    · cases h
  simp only [chatBody, List.mem_append] at hp
  rcases hp with (((hp | hp) | hp) | hp) | hp <;>
  · rw [hkey hp]
    decide

/-- The member `stream` of what the body means. -/
theorem get_stream {messages : List Message} {s : Settings} {m : GoMap}
    (hm : Json.obj m = canon id id (requestObject messages s)) : get streamKey m = some (.bool true) := by
  rw [requestObject, object, Json.canon_obj, Json.obj.injEq] at hm
  have hnone : get streamKey (((chatBody s).map (Prod.map id numberValue)).map (Prod.map key id)).reverse = none := by
    refine get_of_forall_ne fun p hp => ?_
    rw [List.mem_reverse, List.map_map, List.mem_map] at hp
    obtain ⟨q, hq, rfl⟩ := hp
    exact fun h => chatBody_ne s q hq (key_injective h)
  have hmap : ∀ l : List (List CodePoint × Value), l.map (Prod.map id id) = l := fun l => List.map_id l
  rw [hm, get_map, Json.kept, hmap, get_collect, List.map_append, List.reverse_append, get_append, hnone]
  rfl

end Written

/-! ## What the bubble shows -/

section Bubble

variable (convert : Value → Text) (failure : Text)

theorem goString_key (k : String) : GoJson.goString (key k) = key k := GoJson.goString_text _

theorem map_object (members : List (String × Value)) : Json.map Decimal.written GoJson.goString (object members) =
    object (members.map (Prod.map id (Json.map Decimal.written GoJson.goString))) := by
  rw [object, object, Json.map_obj, List.map_map, List.map_map]
  exact congrArg Json.obj (List.map_congr_left fun p _ => Prod.ext (goString_key p.1) rfl)

theorem property_object (k : String) (members : List (String × Value)) :
    property k (object members) = members.reverse.lookup k := by
  show get (key k) (collect _) = _
  rw [get_collect, ← List.map_reverse, get_key]

/-- The value of the body that `respondError` writes, as it is read back. -/
theorem readText_errorBody (e : ErrorDetail) : readText (Utf8.decode (errorBody e)) = some (object [("error", object
    [("message", textValue e.message.toList), ("type", textValue e.type.toList),
      ("code", .num (Decimal.written ⟨false, e.code⟩))])]) := by
  have hwritten := JsonText.readText_write Decimal.spells_numberText GoJson.spells_quote (object [("error", object
    [("message", textValue e.message.toList), ("type", textValue e.type.toList), ("code", .num ⟨false, e.code⟩)])])
  have htext : ∀ t : Text, Json.map Decimal.written GoJson.goString (textValue t) = textValue t := fun t =>
    congrArg Json.str (GoJson.goString_text t)
  have hcode : Json.map Decimal.written GoJson.goString (.num ⟨false, e.code⟩) =
    .num (Decimal.written ⟨false, e.code⟩) := rfl
  simp only [map_object, List.map_cons, List.map_nil, Prod.map_apply, htext, hcode, id_eq] at hwritten
  rw [errorBody, Utf8.decode_encode]
  exact JsJson.readText_newline hwritten

theorem truthy_textValue {t : Text} (h : t ≠ []) : truthy (textValue t) = true := by
  cases t with
  | nil => exact absurd rfl h
  | cons c t => rfl

theorem toText_textValue (t : Text) : toText convert (textValue t) = t := by
  show (t.map codePoint).map GoJson.toRune = t
  rw [List.map_map]
  exact (List.map_congr_left fun c _ => GoJson.toRune_codePoint c).trans (List.map_id _)

theorem property_error (inner : Value) : property "error" (object [("error", inner)]) = some inner := by
  rw [property_object]
  simp

theorem property_message (message type code : Value) :
    property "message" (object [("message", message), ("type", type), ("code", code)]) = some message := by
  rw [property_object]
  rfl

/-- **The message of an error response** is the one that the bubble shows. -/
theorem errorBubble_errorBody {e : ErrorDetail} (h : e.message ≠ "") :
    errorBubble convert (errorBody e) = "Error: ".toList ++ e.message.toList := by
  have hne : e.message.toList ≠ [] := fun hnil => h (String.toList_eq_nil_iff.mp hnil)
  have hread := readText_errorBody e
  have hmessage : ((readText (Utf8.decode (errorBody e))).bind (property "error")).bind (property "message") =
      some (textValue e.message.toList) := by
    rw [hread, Option.bind_some, property_error, Option.bind_some, property_message]
  unfold errorBubble
  rw [hmessage]
  refine congrArg ("Error: ".toList ++ ·) ?_
  show (if truthy (textValue e.message.toList) then _ else _) = _
  rw [if_pos (truthy_textValue hne), toText_textValue]

/-- The page after an error response of the handler. -/
theorem afterFetch_error {status : Nat} (hstatus : ¬(200 ≤ status ∧ status < 300)) {message : String}
    (h : message ≠ "") : afterFetch convert failure (answerOf (.error (.error (respondError status message)))) =
      .bubble ("Error: ".toList ++ message.toList) := by
  show (if 200 ≤ status ∧ status < 300 then _ else _) = _
  rw [if_neg hstatus]
  exact congrArg Outcome.bubble (errorBubble_errorBody convert h)

end Bubble

/-! ## There and back -/

/-- The exchange of a body with the handler and its engine. -/
def exchange (s : Llmserver.Server) (engine : Outgoing → Option Relayed) (body : List UInt8) : Option Relayed :=
  answerOf (handleChatCompletions s (chatRequestOf body) engine)

/-- What becomes of the messages that the page sends with its settings. -/
structure RoundTrip (s : Llmserver.Server) (engine : Outgoing → Option Relayed) (messages : List Message)
    (settings : Settings) : Prop where
  /-- A manager that is running sends the engine the object of the page, and the page gets the answer as a stream. -/
  delivered : s.isRunning = true → ∃ out m,
    chatRequest s (chatRequestOf (requestBody messages settings)) = .ok out ∧ unmarshal out.body = some (some m) ∧
      Json.obj m = canon id id (requestObject messages settings) ∧
      ∀ resp, engine out = some resp →
        exchange s engine (requestBody messages settings) = some ⟨resp.status, eventStream, resp.body⟩
  /-- The bubble says that no model is loaded, -/
  stopped : ∀ convert failure, s.isRunning = false →
    afterFetch convert failure (exchange s engine (requestBody messages settings)) =
      .bubble "Error: model not loaded".toList
  /-- or that the engine does not answer. -/
  silent : ∀ convert failure, s.isRunning = true → (∀ out, engine out = none) →
    afterFetch convert failure (exchange s engine (requestBody messages settings)) =
      .bubble "Error: failed to connect to inference engine".toList

section RoundTrip

variable {port : Int} {s : Llmserver.Server} (messages : List Message) {settings : Settings}

theorem route_chatRequestOf (body : List UInt8) : (chatRequestOf body).route = some .chatCompletions := rfl

/-- What the handler sends for a body of the page. -/
theorem chatRequest_page (hs : s.backendURL = "http://127.0.0.1:" ++ itoa port) (hport : 0 ≤ port)
    (hup : s.isRunning = true) (hsettings : OfPage settings) :
    ∃ m, chatRequest s (chatRequestOf (requestBody messages settings)) = .ok (chatOutgoing port m) ∧
      unmarshal (chatOutgoing port m).body = some (some m) ∧
      Json.obj m = canon id id (requestObject messages settings) ∧
      Api.asksStream (chatRequestOf (requestBody messages settings)) = true := by
  obtain ⟨m, hm, hmeans⟩ := JsJson.unmarshal_stringify (plain_request messages hsettings)
    (depth_request messages settings)
  have hdecoded : Decoded m := GoJson.decoded_unmarshal hm
  have hstream := get_stream hmeans
  have hbody : Api.chatBody (requestBody messages settings) = .ok m := by
    have hsame : setKey streamKey (.bool (equalsTrue (get streamKey m))) m = m :=
      setKey_of_get hdecoded.increasing (by rw [hstream]; rfl)
    have hread : unmarshal (requestBody messages settings) = some (some m) := hm
    rw [Api.chatBody, hread]
    exact congrArg Except.ok hsame
  refine ⟨m, ?_, GoJson.unmarshal_marshal hdecoded, hmeans, ?_⟩
  · rw [Api.chatRequest_eq hs hup (route_chatRequestOf _) rfl, hbody]
    exact if_pos hport
  · have hbody' : ((chatRequestOf (requestBody messages settings)).body.map Api.chatBody) = some (.ok m) :=
      congrArg some hbody
    rw [Api.asksStream, hbody']
    simp only [hstream, equalsTrue]

theorem roundTrip_server (hs : s.backendURL = "http://127.0.0.1:" ++ itoa port) (hport : 0 ≤ port)
    (hsettings : OfPage settings) (engine : Outgoing → Option Relayed) : RoundTrip s engine messages settings := by
  refine ⟨fun hup => ?_, fun convert failure hdown => ?_, fun convert failure hup hsilent => ?_⟩
  · obtain ⟨m, hreq, hread, hmeans, hstream⟩ := chatRequest_page messages hs hport hup hsettings
    refine ⟨_, m, hreq, hread, hmeans, fun resp hresp => ?_⟩
    rw [exchange, handleChatCompletions, hreq]
    simp only [hresp, hstream, if_true]
    rfl
  · have hreq : chatRequest s (chatRequestOf (requestBody messages settings)) =
        .error (.error (respondError 503 "model not loaded")) := by
      rw [chatRequest, Api.chatProxy, Api.exactProxy, hdown]
      rfl
    rw [exchange, Api.handle_of_error hreq, afterFetch_error convert failure (by decide) (by decide)]
    rfl
  · obtain ⟨m, hreq, -⟩ := chatRequest_page messages hs hport hup hsettings
    have hhandle : handleChatCompletions s (chatRequestOf (requestBody messages settings)) engine =
        .error (.error (respondError 502 "failed to connect to inference engine")) := by
      rw [handleChatCompletions, hreq]
      simp only [hsilent]
    rw [exchange, hhandle, afterFetch_error convert failure (by decide) (by decide)]
    rfl

end RoundTrip

/-- **A message of the page reaches the engine unchanged**, or the bubble says why not: in every run of the manager on a
port that is not negative, for every history, message and image without halves of surrogate pairs, with or without
reasoning, and for all settings that the page can have. -/
theorem roundTrip (port : Int) (hport : 0 ≤ port) (ls : List Llmserver.Label) (sys : Llmserver.Sys)
    (hrun : exec Llmserver.step (Llmserver.sysInit port) ls = some sys) (engine : Outgoing → Option Relayed)
    (reasoning : Bool) (history : List Entry) (message image : Text) (settings : Settings) (hs : OfPage settings) :
    RoundTrip sys.machine.srv engine (requestMessages reasoning history message image) settings :=
  roundTrip_server _ (Api.backendURL_exec hrun) hport hs engine

/-- The first message of a page with its initial settings. -/
theorem roundTrip_hello :
    RoundTrip Api.upServer (fun _ => none) (requestMessages false [] "hello".toList []) initialSettings :=
  roundTrip 8081 (by decide) Api.upRun Api.upSys Api.exec_upRun (fun _ => none) false [] "hello".toList []
    initialSettings (.inl rfl)

end LaManchaland.Wire
