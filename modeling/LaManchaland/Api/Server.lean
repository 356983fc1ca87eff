import LaManchaland.Discovery
import LaManchaland.Llmserver.Machine

/-!
# The API server: its state and the worker handlers

`Api.Server` is the state of `api.Server`; a `Controller` is the API server with the registry and the llama-server
manager it was made with, which `main` always passes. Handlers are given as their effect on the data, with the decoded
body (`none` when it does not decode) and their response. `broadcastUpdate` sends its payload to every client and drops
the clients whose write fails.
-/

namespace LaManchaland.Api

open Llmserver (Machine Setting Env)

structure Server where
  clients : List Nat
  modelPath : String
  mmprojPath : String
  modelLoaded : Bool
  rpcWorkers : List String

/-- `NewServer`. -/
def newServer : Server := ⟨[], "", "", false, []⟩

structure Controller where
  api : Server
  disc : Discovery
  llm : Machine

/-- The empty API server and the empty registry. -/
def emptyController (llm : Machine) : Controller := ⟨newServer, newDiscovery, llm⟩

/-- A response of `respondJSON`. -/
structure Response (β : Type) where
  status : Nat
  body : β
  deriving DecidableEq

/-! ## The broadcast -/

/-- The message of `broadcastUpdate`. -/
structure Payload where
  workers : List WorkerInfo
  path : String
  loaded : Bool
  rpcWorkers : List String

section Broadcast

variable (c : Controller)

def broadcastPayload : Payload := ⟨c.disc.getWorkers, c.api.modelPath, c.api.modelLoaded, c.api.rpcWorkers⟩

/-- `broadcastUpdate`: the clients whose write fails are closed and removed. -/
def broadcastUpdate (writeFails : Nat → Bool) : Controller :=
  { c with api := { c.api with clients := c.api.clients.filter fun client => !writeFails client } }

end Broadcast

/-! ## The setters -/

section Setters

variable (c : Controller)

def setModelPath (path : String) : Controller :=
  { c with api := { c.api with modelPath := path }, llm := Llmserver.set (.setModelPath path) c.llm }

def setMMProjPath (path : String) : Controller :=
  { c with api := { c.api with mmprojPath := path }, llm := Llmserver.set (.setMMProjPath path) c.llm }

/-- `AddRPCWorker`: it appends without looking. -/
def addRPCWorker (writeFails : Nat → Bool) (host : String) (port : Int) : Controller :=
  broadcastUpdate { c with api := { c.api with rpcWorkers := c.api.rpcWorkers ++ [endpoint host port] } } writeFails

/-- `RemoveRPCWorker`, which no handler calls. -/
def removeRPCWorker (writeFails : Nat → Bool) (index : Int) : Controller :=
  if 0 ≤ index ∧ index < c.api.rpcWorkers.length then
    broadcastUpdate { c with api := { c.api with rpcWorkers := c.api.rpcWorkers.eraseIdx index.toNat } } writeFails
  else c

end Setters

/-! ## The worker handlers -/

inductive Method where
  | get
  | post
  | delete
  | other
  deriving DecidableEq

/-- The body of `POST /api/workers/manual`. -/
structure AddRequest where
  host : String
  port : Int
  name : String

/-- The body of `DELETE /api/workers`. -/
structure RemoveRequest where
  host : String
  port : Int

section Handlers

variable (c : Controller) (writeFails : Nat → Bool)

/-- `handleWorkers` on GET. -/
def handleWorkersGet : Response (List WorkerInfo) := ⟨200, c.disc.getWorkers⟩

/-- `handleWorkers` on DELETE: the registry forgets the worker. -/
def handleWorkersDelete : Option RemoveRequest → Controller × Response (List (String × String))
  | none => (c, ⟨400, [("error", "invalid request")]⟩)
  | some req =>
    let key := endpoint req.host req.port
    (broadcastUpdate { c with disc := c.disc.removeWorker key } writeFails, ⟨200, [("status", "ok")]⟩)

/-- The name under which a worker is added. -/
def AddRequest.fullName (req : AddRequest) : String :=
  if req.name = "" then "worker-" ++ endpoint req.host req.port else req.name

/-- The section of `handleAddWorker` under the registry's lock. -/
def addToRegistry (now : Nat) (req : AddRequest) : Controller :=
  { c with disc := c.disc.addManualWorker now req.host req.port req.fullName }

def handleAddWorker (now : Nat) (method : Method) (body : Option AddRequest) :
    Controller × Response (List (String × String)) :=
  if method ≠ .post then (c, ⟨405, [("error", "method not allowed")]⟩)
  else
    match body with
    | none => (c, ⟨400, [("error", "invalid request")]⟩)
    | some req =>
      if req.host = "" ∨ req.port = 0 then (c, ⟨400, [("error", "host and port required")]⟩)
      else
        (broadcastUpdate (addRPCWorker (addToRegistry c now req) writeFails req.host req.port) writeFails,
          ⟨200, [("status", "ok"), ("name", req.fullName)]⟩)

end Handlers

/-! ## The state that the model handler shows and changes -/

/-- The body of `GET /api/model`. -/
structure ModelStatus where
  path : String
  mmproj : String
  loaded : Bool
  running : Bool
  workers : List String
  deriving DecidableEq

section Model

variable (c : Controller)

/-- `handleModel` on GET. -/
def handleModelGet : Response ModelStatus where
  status := 200
  body :=
    { path := c.api.modelPath
      mmproj := c.api.mmprojPath
      loaded := c.api.modelLoaded
      running := c.llm.srv.isRunning
      workers := c.api.rpcWorkers }

/-- The first section of the load goroutine: `SetRPCWorkers` under the API lock. -/
def copyWorkers : Controller := { c with llm := Llmserver.set (.setRPCWorkers c.api.rpcWorkers) c.llm }

/-- The locked writes of `handleModel` to the model state: the paths of a POST, the flag, and the DELETE. -/
def setPaths (path mmproj : String) : Controller :=
  { c with api := { c.api with modelPath := path, mmprojPath := if mmproj ≠ "" then mmproj else c.api.mmprojPath } }

def setLoaded (loaded : Bool) : Controller := { c with api := { c.api with modelLoaded := loaded } }

def clearModel : Controller := { c with api := { c.api with modelPath := "", mmprojPath := "", modelLoaded := false } }

end Model

/-! ## What a successful request does -/

section Success

variable {c : Controller} {writeFails : Nat → Bool} {now : Nat}

/-- An addition succeeds on a decoded POST with a host and a port. -/
theorem handleAddWorker_ok {method : Method} {body : Option AddRequest}
    (h : (handleAddWorker c writeFails now method body).2.status = 200) :
    ∃ req, body = some req ∧ method = .post ∧ req.host ≠ "" ∧ req.port ≠ 0 ∧
      (handleAddWorker c writeFails now method body).1 =
        broadcastUpdate (addRPCWorker (addToRegistry c now req) writeFails req.host req.port) writeFails := by
  unfold handleAddWorker at h ⊢
  by_cases hm : method = .post
  · cases body with
    | none => simp [hm] at h
    | some req =>
      by_cases hr : req.host = "" ∨ req.port = 0
      · simp [hm, hr] at h
      · rw [not_or] at hr
        exact ⟨req, rfl, hm, hr.1, hr.2, by simp [hm, hr.1, hr.2]⟩
  · simp [hm] at h

/-- A removal succeeds on a decoded body. -/
theorem handleWorkersDelete_ok {body : Option RemoveRequest}
    (h : (handleWorkersDelete c writeFails body).2.status = 200) :
    ∃ req, body = some req ∧ (handleWorkersDelete c writeFails body).1 =
      broadcastUpdate { c with disc := c.disc.removeWorker (endpoint req.host req.port) } writeFails := by
  cases body with
  | none => simp [handleWorkersDelete] at h
  | some req => exact ⟨req, rfl, rfl⟩

end Success

end LaManchaland.Api
