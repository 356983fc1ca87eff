import LaManchaland.Registry
import LaManchaland.Api.Server
import LaManchaland.Llmserver.Models

/-!
# The `/v1` routes

`setupV1Routes` registers five patterns; `Request.route` is the one that the mux selects. Three handlers send the
request on with `http.NewRequest`, to the string that is `BackendURL` and the path; they differ in what they do to the
method, the headers and the body (`exactProxy`). The fourth one is a reverse proxy whose director rewrites the URL
(`director`). A handler ends with the request it sends to the engine, or without one (`Halt`).

In every run of the manager, a request that is sent goes to the engine with the path and the query of the client exactly
when it came over one of the three exact routes without a query: `goesToEngine_iff`. The exact routes lose the query,
and the reverse proxy goes to port 80 of the loopback address with a shorter path.
-/

namespace LaManchaland.Api

open Digits (hexDigit)
open Llmserver (itoa)
open Runs (exec)

/-! ## URLs -/

structure URL where
  scheme : String
  host : String
  path : String
  rawQuery : String
  deriving DecidableEq

/-- `strings.Cut` at a character. -/
def cut (c : Char) (s : List Char) : List Char × List Char := (s.takeWhile (· ≠ c), (s.dropWhile (· ≠ c)).drop 1)

/-- The check of package url on the port of an authority: after the last colon there are only digits. -/
def validPort (host : List Char) : Bool := if ':' ∈ host then (Cut.afterLast ':' host).all Char.isDigit else true

/-- The percent-decoding of a path. -/
def unescape : List Char → Option (List Char)
  | [] => some []
  | '%' :: h :: l :: rest =>
    match hexDigit h, hexDigit l with
    | some a, some b => (unescape rest).map (Char.ofNat (16 * a + b) :: ·)
    | _, _ => none
  | c :: rest => if c = '%' then none else (unescape rest).map (c :: ·)

/-- `url.Parse` of an absolute http URL: the fragment and the query are cut off, then comes the authority up to the
first slash, then the path. -/
def parseURL (raw : String) : Option URL :=
  let u := (cut '#' raw.toList).1
  let rest := (cut '?' u).1
  let query := (cut '?' u).2
  if "http://".toList <+: rest then
    let rest := rest.drop 7
    let host := rest.takeWhile (· ≠ '/')
    let path := rest.dropWhile (· ≠ '/')
    if validPort host then
      (unescape path).map fun path => ⟨"http", String.ofList host, String.ofList path, String.ofList query⟩
    else none
  else none

/-! ## Requests and routes -/

/-- What stands between two slashes of a path, as it is sent and as it reads. -/
structure Segment where
  escaped : String
  text : String
  deriving DecidableEq

/-- A request of a client; the body is `none` when reading it fails. -/
structure Request where
  method : String
  segments : List Segment
  rawQuery : String
  body : Option (List UInt8)

/-- `r.URL.Path`. -/
def Request.path (r : Request) : String := "/" ++ "/".intercalate (r.segments.map Segment.text)

/-- The path is left alone by `cleanPath`: no dots, and no empty segment before the last one. -/
def Request.isClean (r : Request) : Bool :=
  r.segments.all (fun s => s.escaped ≠ "." ∧ s.escaped ≠ "..") ∧ r.segments.dropLast.all fun s => s.escaped ≠ ""

/-- The patterns of `setupV1Routes`. -/
inductive Route where
  | models
  | chatCompletions
  | completions
  | embeddings
  | fallback
  deriving DecidableEq

/-- The pattern that the mux selects; it redirects a path that is not clean, unless the method is CONNECT. -/
def Request.route (r : Request) : Option Route :=
  if r.method ≠ "CONNECT" ∧ !r.isClean then none
  else
    match r.segments.map Segment.text with
    | ["v1", "models"] => some .models
    | ["v1", "chat", "completions"] => some .chatCompletions
    | ["v1", "completions"] => some .completions
    | ["v1", "embeddings"] => some .embeddings
    | "v1" :: _ :: _ => some .fallback
    | _ => none

/-! ## The handlers -/

/-- The body of `respondError`. -/
structure ErrorDetail where
  message : String
  type : String
  code : Nat
  deriving DecidableEq

def respondError (status : Nat) (message : String) : Response ErrorDetail :=
  ⟨status, ⟨message, "invalid_request_error", status⟩⟩

/-- How a handler ends without a request to the engine: with an error response, or in a panic. -/
inductive Halt where
  | error (r : Response ErrorDetail)
  | panic
  deriving DecidableEq

/-- A request to the engine, with the headers that the handler sets; `host` is its Host header. -/
structure Outgoing where
  method : String
  url : URL
  host : String
  header : List (String × String)
  body : List UInt8
  deriving DecidableEq

/-- `http.NewRequest`, and the headers set after it. -/
def newRequest (method rawURL : String) (header : List (String × String)) (body : List UInt8) : Option Outgoing :=
  (parseURL rawURL).map fun url => ⟨method, url, url.host, header, body⟩

/-- The body of the list of models. -/
structure ModelList where
  object : String
  data : List Llmserver.ModelEntry

def handleModels (now : Int) (modelPath : String) (r : Request) : Except (Response ErrorDetail) (Response ModelList) :=
  if r.method ≠ "GET" then .error (respondError 405 "method not allowed")
  else .ok ⟨200, ⟨"list", Llmserver.getModels now modelPath⟩⟩

/-- The list is for GET, and its ids are file names: no separator of directories is in them. -/
theorem handleModels_ids (now : Int) (modelPath : String) (r : Request) :
    (r.method ≠ "GET" → ∃ e, handleModels now modelPath r = .error e ∧ e.status = 405) ∧
      (r.method = "GET" → ∃ list, handleModels now modelPath r = .ok ⟨200, list⟩ ∧
        ∀ m ∈ list.data, ∀ c ∈ m.id.toList, Llmserver.isSep c = false) := by
  constructor
  · intro h
    exact ⟨_, if_pos h, rfl⟩
  · intro h
    exact ⟨_, if_neg (not_not.mpr h), fun m hm => Llmserver.not_sep_id hm⟩

section Handlers

variable (s : Llmserver.Server) (r : Request)

/-- The handlers of the exact routes up to the request that they send. -/
def exactProxy (method : String) (header : List (String × String))
    (prepare : List UInt8 → Except Halt (List UInt8)) : Except Halt Outgoing :=
  if !s.isRunning then .error (.error (respondError 503 "model not loaded"))
  else
    match r.body with
    | none => .error (.error (respondError 400 "invalid request body"))
    | some body =>
      match prepare body with
      | .error e => .error e
      | .ok body =>
        match newRequest method (s.backendURL ++ r.path) header body with
        | none => .error (.error (respondError 500 "proxy error"))
        | some out => .ok out

/-- `handleChatCompletions`, whose treatment of the body is `prepare`. -/
def chatProxy (prepare : List UInt8 → Except Halt (List UInt8)) : Except Halt Outgoing :=
  exactProxy s r "POST" [("Content-Type", "application/json"), ("Accept", "application/json")] prepare

def handleCompletions : Except Halt Outgoing :=
  exactProxy s r r.method [("Content-Type", "application/json")] .ok

def handleEmbeddings : Except Halt Outgoing :=
  exactProxy s r r.method [("Content-Type", "application/json")] .ok

/-- `strings.TrimPrefix`. -/
def trimPrefix (p s : String) : String :=
  if p.toList <+: s.toList then String.ofList (s.toList.drop p.length) else s

/-- The director of `handleV1Fallback`, on a copy of the client's URL. -/
def director (url : URL) : URL :=
  { url with scheme := "http", host := "127.0.0.1", path := trimPrefix "/v1" url.path }

/-- `handleV1Fallback`; the reverse proxy sends the body on as it reads it. -/
def handleV1Fallback : Except Halt Outgoing :=
  if !s.isRunning then .error (.error (respondError 503 "model not loaded"))
  else .ok ⟨r.method, director ⟨"", "", r.path, r.rawQuery⟩, "127.0.0.1", [], r.body.getD []⟩

/-- The handler of a proxy route. -/
def proxyHandler (prepare : List UInt8 → Except Halt (List UInt8)) : Route → Option (Except Halt Outgoing)
  | .models => none
  | .chatCompletions => some (chatProxy s r prepare)
  | .completions => some (handleCompletions s r)
  | .embeddings => some (handleEmbeddings s r)
  | .fallback => some (handleV1Fallback s r)

end Handlers

/-! ## The URL of the exact routes -/

theorem cut_of_not_mem {c : Char} {l : List Char} (h : c ∉ l) : cut c l = (l, []) := by
  have hne : ∀ x ∈ l, decide (x ≠ c) = true := fun x hx => decide_eq_true fun hxc => h (hxc ▸ hx)
  rw [cut, List.takeWhile_eq_self_iff.mpr hne, List.dropWhile_eq_nil_iff.mpr hne]
  rfl

theorem unescape_of_not_mem : ∀ {l : List Char}, '%' ∉ l → unescape l = some l
  | [], _ => rfl
  | c :: l, h => by
    rw [List.mem_cons, not_or] at h
    rw [unescape, if_neg (Ne.symm h.1), unescape_of_not_mem h.2]
    · rfl
    · exact fun a b rest hc _ => h.1 hc.symm

/-- **Parsing an authority and a path**: without query and fragment, and without percent signs, they come back. -/
theorem parseURL_eq {host path : String} (hhost : ∀ c ∈ host.toList, c ≠ '#' ∧ c ≠ '?' ∧ c ≠ '/')
    (hpath : ∀ c ∈ path.toList, c ≠ '#' ∧ c ≠ '?' ∧ c ≠ '%') (hslash : path.toList.head? = some '/') :
    parseURL ("http://" ++ host ++ path) =
      if validPort host.toList then some ⟨"http", host, path, ""⟩ else none := by
  obtain ⟨rest, hrest⟩ : ∃ rest, path.toList = '/' :: rest := List.head?_eq_some_iff.mp hslash
  have hraw : ("http://" ++ host ++ path).toList = "http://".toList ++ (host.toList ++ path.toList) := by
    simp only [String.toList_append, List.append_assoc]
  have hmem : ∀ c, c ∉ "http://".toList → c ∉ host.toList → c ∉ path.toList →
      c ∉ "http://".toList ++ (host.toList ++ path.toList) := by
    intro c h1 h2 h3
    simp only [List.mem_append, not_or]
    exact ⟨h1, h2, h3⟩
  have hfragment := hmem '#' (by decide) (fun h => (hhost _ h).1 rfl) (fun h => (hpath _ h).1 rfl)
  have hquery := hmem '?' (by decide) (fun h => (hhost _ h).2.1 rfl) (fun h => (hpath _ h).2.1 rfl)
  have hauth : ∀ c ∈ host.toList, decide (c ≠ '/') = true := fun c hc => decide_eq_true (hhost c hc).2.2
  have htake : (host.toList ++ path.toList).takeWhile (· ≠ '/') = host.toList := by
    rw [List.takeWhile_append_of_pos hauth, hrest]
    simp
  have hdrop : (host.toList ++ path.toList).dropWhile (· ≠ '/') = path.toList := by
    rw [List.dropWhile_append_of_pos hauth, hrest]
    simp
  rw [parseURL, hraw, cut_of_not_mem hfragment]
  simp only [cut_of_not_mem hquery]
  rw [if_pos (List.prefix_append _ _)]
  have hskip : ("http://".toList ++ (host.toList ++ path.toList)).drop 7 = host.toList ++ path.toList := rfl
  simp only [hskip, htake, hdrop, unescape_of_not_mem fun h => (hpath _ h).2.2 rfl, Option.map_some,
    String.ofList_toList, String.ofList_nil]

theorem hostChars (port : Int) :
    ∀ c ∈ ("127.0.0.1:" ++ itoa port).toList, c ≠ '#' ∧ c ≠ '?' ∧ c ≠ '/' := by
  intro c hc
  rw [String.toList_append, List.mem_append] at hc
  rcases hc with hc | hc
  · have hhost : "127.0.0.1:".toList.all (fun c => c ≠ '#' ∧ c ≠ '?' ∧ c ≠ '/') = true := by decide
    simpa using List.all_eq_true.mp hhost c hc
  · rcases itoa_chars port c hc with rfl | hd
    · decide
    · refine ⟨?_, ?_, ?_⟩ <;> rintro rfl <;> exact absurd hd (by decide)

/-! ## The authority of the manager -/

/-- No function of the manager writes the backend URL. -/
theorem backendURL_step {s t : Llmserver.Sys} {l : Llmserver.Label} (h : Llmserver.step s l = some t) :
    t.machine.srv.backendURL = s.machine.srv.backendURL := by
  have kept : ∀ {m m' : Llmserver.Machine}, m'.srv.settings = m.srv.settings →
      m'.srv.backendURL = m.srv.backendURL := fun h => Llmserver.Server.settings_congr h (·.backendURL) fun _ => rfl
  rcases Llmserver.step_cases h with ⟨f, -, ht⟩ | ⟨env, -, ht⟩ | ⟨-, ht⟩ | ⟨env, -, ht⟩ | ⟨-, ht⟩ | ⟨i, -, ht⟩ |
    ⟨i, -, ht⟩
  · rw [ht]
    cases f <;> rfl
  · rw [ht]
    exact kept (Llmserver.start_settings env _)
  · rw [ht]
    exact kept (Llmserver.stopLocked_settings _)
  · rw [ht]
    rcases Llmserver.startNonBlocking_cases env s.machine with he | ⟨-, -, he⟩
    · rw [he]
    · rw [he]
      rfl
  · rw [ht]
  · obtain ⟨c, -, -, he⟩ := Llmserver.exit_some ht
    rw [he]
  · obtain ⟨c, -, -, -, he⟩ := Llmserver.update_some ht
    rw [he]

theorem backendURL_exec {port : Int} {ls : List Llmserver.Label} {s : Llmserver.Sys}
    (h : exec Llmserver.step (Llmserver.sysInit port) ls = some s) :
    s.machine.srv.backendURL = "http://127.0.0.1:" ++ itoa port :=
  Runs.exec_invariant (I := fun s => s.machine.srv.backendURL = "http://127.0.0.1:" ++ itoa port)
    (fun _ _ _ hs ht => (backendURL_step ht).trans hs) rfl h

/-! ## Which requests reach the engine -/

section Routes

variable {r : Request} {route : Route}

/-- The path of an exact route. -/
def Route.path : Route → Option String
  | .models => some "/v1/models"
  | .chatCompletions => some "/v1/chat/completions"
  | .completions => some "/v1/completions"
  | .embeddings => some "/v1/embeddings"
  | .fallback => none

/-- **The mux selects an exact route for its path only.** -/
theorem path_of_route {p : String} (h : r.route = some route) (hp : route.path = some p) : r.path = p := by
  unfold Request.route at h
  unfold Request.path
  split at h
  · cases h
  · split at h
    case h_6 => cases h
    case h_5 =>
      cases h
      cases hp
    all_goals
      rename_i htexts
      cases h
      cases hp
      rw [htexts]
      rfl

variable {port : Int}

/-- Where an exact route sends a request. -/
theorem parseURL_exact {p : String} (hp : route.path = some p) :
    parseURL ("http://127.0.0.1:" ++ itoa port ++ p) =
      if validPort ("127.0.0.1:" ++ itoa port).toList then some ⟨"http", "127.0.0.1:" ++ itoa port, p, ""⟩
      else none := by
  have hchars : p.toList.all (fun c => c ≠ '#' ∧ c ≠ '?' ∧ c ≠ '%') = true ∧ p.toList.head? = some '/' := by
    cases route <;> cases hp <;> decide
  have hparse := @parseURL_eq _ p (hostChars port)
    (fun c hc => by simpa using List.all_eq_true.mp hchars.1 c hc) hchars.2
  rwa [← String.append_assoc] at hparse

/-- What an exact handler sends goes to the parsed URL. -/
theorem exactProxy_url {s : Llmserver.Server} {method : String} {header : List (String × String)}
    {prepare : List UInt8 → Except Halt (List UInt8)} {out : Outgoing}
    (h : exactProxy s r method header prepare = .ok out) : parseURL (s.backendURL ++ r.path) = some out.url := by
  unfold exactProxy at h
  split at h
  · cases h
  · split at h
    · cases h
    · split at h
      · cases h
      · split at h
        · cases h
        · rename_i hnew
          cases h
          obtain ⟨url, hurl, rfl⟩ := Option.map_eq_some_iff.mp hnew
          exact hurl

variable {s : Llmserver.Server} {prepare : List UInt8 → Except Halt (List UInt8)} {out : Outgoing}

/-- **The exact routes** send a request to the engine, under its path and without a query. -/
theorem url_of_exact (hs : s.backendURL = "http://127.0.0.1:" ++ itoa port) (hroute : r.route = some route)
    (hexact : route ≠ .fallback) (hsent : proxyHandler s r prepare route = some (.ok out)) :
    out.url = ⟨"http", "127.0.0.1:" ++ itoa port, r.path, ""⟩ := by
  have hparse : parseURL (s.backendURL ++ r.path) = some out.url := by
    cases route with
    | models => cases hsent
    | fallback => exact absurd rfl hexact
    | _ => exact exactProxy_url (Option.some.inj hsent)
  obtain ⟨p, hp⟩ : ∃ p, route.path = some p := by
    cases route with
    | fallback => exact absurd rfl hexact
    | _ => exact ⟨_, rfl⟩
  rw [hs, path_of_route hroute hp, parseURL_exact hp, Option.ite_none_right_eq_some, Option.some.injEq] at hparse
  rw [← hparse.2, path_of_route hroute hp]

/-- The reverse proxy sends a request to the loopback address without the port. -/
theorem url_of_fallback (hsent : proxyHandler s r prepare .fallback = some (.ok out)) : out.url.host = "127.0.0.1" := by
  simp only [proxyHandler, handleV1Fallback, Option.some.injEq] at hsent
  split at hsent
  · cases hsent
  · cases hsent
    rfl

/-- **When a request reaches the engine as it is**: in every run of the manager, for every request that a proxy handler
sends, the target is the authority of the backend URL with the path and the query of the client exactly when the route
is an exact one and the query is empty. -/
theorem goesToEngine_iff (port : Int) (ls : List Llmserver.Label) (sys : Llmserver.Sys)
    (hrun : exec Llmserver.step (Llmserver.sysInit port) ls = some sys) (r : Request) (route : Route)
    (hroute : r.route = some route) (prepare : List UInt8 → Except Halt (List UInt8)) (out : Outgoing)
    (hsent : proxyHandler sys.machine.srv r prepare route = some (.ok out)) :
    out.url = ⟨"http", "127.0.0.1:" ++ itoa port, r.path, r.rawQuery⟩ ↔ route ≠ .fallback ∧ r.rawQuery = "" := by
  constructor
  · intro hurl
    have hexact : route ≠ .fallback := by
      rintro rfl
      have hhost := url_of_fallback hsent
      rw [hurl] at hhost
      have hlen := congrArg String.length hhost
      have hlit : "127.0.0.1:".length = 10 ∧ "127.0.0.1".length = 9 := ⟨rfl, rfl⟩
      simp only [String.length_append, hlit] at hlen
      omega
    have hexactURL := url_of_exact (backendURL_exec hrun) hroute hexact hsent
    rw [hexactURL, URL.mk.injEq] at hurl
    exact ⟨hexact, hurl.2.2.2.symm⟩
  · rintro ⟨hexact, hquery⟩
    rw [url_of_exact (backendURL_exec hrun) hroute hexact hsent, hquery]

end Routes

/-! A manager that is up, with one request over an exact route and one over the fallback. -/

def upRun : List Llmserver.Label := [.set (.setModelPath "/models/a.gguf"), .start Llmserver.envUp]

def upServer : Llmserver.Server :=
  { Llmserver.new 8081 with modelPath := "/models/a.gguf", isRunning := true, cmd := some 0, cancel := some 0 }

def upSys : Llmserver.Sys := ⟨⟨upServer, [⟨"/usr/bin/llama-server", upServer.buildArgs, false, false, false⟩]⟩, 0⟩

theorem exec_upRun : exec Llmserver.step (Llmserver.sysInit 8081) upRun = some upSys := rfl

def embeddingsRequest : Request := ⟨"POST", [⟨"v1", "v1"⟩, ⟨"embeddings", "embeddings"⟩], "", some []⟩

def embeddingsSent : Outgoing where
  method := "POST"
  url := ⟨"http", "127.0.0.1:8081", "/v1/embeddings", ""⟩
  host := "127.0.0.1:8081"
  header := [("Content-Type", "application/json")]
  body := []

def rerankRequest : Request := ⟨"POST", [⟨"v1", "v1"⟩, ⟨"rerank", "rerank"⟩], "top=3", some []⟩

def rerankSent : Outgoing where
  method := "POST"
  url := ⟨"http", "127.0.0.1", "/rerank", "top=3"⟩
  host := "127.0.0.1"
  header := []
  body := []

/-- Embeddings reach the engine. -/
theorem embeddings_goesToEngine :
    embeddingsSent.url = ⟨"http", "127.0.0.1:" ++ itoa 8081, embeddingsRequest.path, embeddingsRequest.rawQuery⟩ ↔
      Route.embeddings ≠ .fallback ∧ embeddingsRequest.rawQuery = "" :=
  goesToEngine_iff 8081 upRun upSys exec_upRun embeddingsRequest .embeddings rfl .ok embeddingsSent rfl

/-- A request to rerank goes to port 80, under another path. -/
theorem not_goesToEngine :
    ¬∀ (port : Int) (ls : List Llmserver.Label) (sys : Llmserver.Sys),
      exec Llmserver.step (Llmserver.sysInit port) ls = some sys → ∀ (r : Request) (route : Route),
      r.route = some route → ∀ (prepare : List UInt8 → Except Halt (List UInt8)) (out : Outgoing),
      proxyHandler sys.machine.srv r prepare route = some (.ok out) →
      out.url = ⟨"http", "127.0.0.1:" ++ itoa port, r.path, r.rawQuery⟩ := by
  intro h
  have hurl := h 8081 upRun upSys exec_upRun rerankRequest .fallback rfl .ok rerankSent rfl
  rw [URL.mk.injEq] at hurl
  exact absurd hurl.2.2.1 (by decide)

end LaManchaland.Api
