import LaManchaland.Lib.GoEncoder
import LaManchaland.Lib.GoStruct
import LaManchaland.Ui.Status
import LaManchaland.Wire.Chat

/-!
# What the page makes of the controller's bytes

`broadcastUpdate`, `GET /api/workers` and `GET /api/model` write their data with encoding/json, and the page reads them
with `JSON.parse`, whose numbers are doubles. A `PageWorker` is a worker as the page has it.

`messages_heard`: for every state of the controller, the page gets the model state as it is, and every worker with its
strings as they are, whatever characters they have, and its integers rounded. So it has the workers of the registry
exactly when their ports and their byte counts are doubles. Strings of Go are taken as valid UTF-8.
-/

namespace LaManchaland.Wire

open Fields
open JsonText (Value CodePoint codePoint readText)
open GoEncoder (GoNumber GoValue marshal encodeLine received)
open GoStruct (goText)
open Float64 (IsDouble)
open Ui (ModelMessage broadcastModel pollModel)
open Ui.ModelSettings (negate jsNumber ofRat_negate)
open Api (Controller Payload ModelStatus broadcastPayload handleModelGet handleWorkersGet)

/-! ## What is written -/

def goString (s : String) : GoValue := .str (key s)

def goUint (n : UInt64) : GoValue := .num (.int n.toNat)

/-- A struct, or a map in the order of its keys. -/
def goObject (members : List (String × GoValue)) : GoValue := .obj (members.map (Prod.map key id))

section Written

variable (time : Nat → String)

/-- A `WorkerInfo` under its tags; `time` is how package time writes a moment. -/
def workerValue (w : WorkerInfo) : GoValue :=
  goObject [("name", goString w.name), ("host", goString w.host), ("port", .num (.int w.port)), ("ip", goString w.ip),
    ("vram_total", goUint w.vramTotal), ("vram_used", goUint w.vramUsed), ("ram_total", goUint w.ramTotal),
    ("ram_used", goUint w.ramUsed), ("gpu_name", goString w.gpuName), ("cpu_load", .num (.float (jsNumber w.cpuLoad))),
    ("status", goString w.status), ("last_seen", goString (time w.lastSeen))]

def workersValue (workers : List WorkerInfo) : GoValue := .arr (workers.map (workerValue time))

/-- The map of `broadcastUpdate`. -/
def payloadValue (p : Payload) : GoValue :=
  goObject [("model", goObject [("loaded", .bool p.loaded), ("path", goString p.path)]),
    ("rpc_workers", .arr (p.rpcWorkers.map goString)), ("workers", workersValue time p.workers)]

/-- The map of `GET /api/model`. -/
def statusValue (s : ModelStatus) : GoValue :=
  goObject [("loaded", .bool s.loaded), ("mmproj", goString s.mmproj), ("path", goString s.path),
    ("running", .bool s.running), ("workers", .arr (s.workers.map goString))]

/-- The message of a broadcast. -/
def pushBody (c : Controller) : List UInt8 := marshal (payloadValue time (broadcastPayload c))

/-- The body of `GET /api/workers`. -/
def workersBody (c : Controller) : List UInt8 := encodeLine (workersValue time (handleWorkersGet c).body)

/-- The body of `GET /api/model`. -/
def modelBody (c : Controller) : List UInt8 := encodeLine (statusValue (handleModelGet c).body)

end Written

/-! ## What is read -/

def asString : Value → Option String
  | .str s => some (goText s)
  | _ => none

def asBool : Value → Option Bool
  | .bool b => some b
  | _ => none

abbrev JsNum := Ui.ModelSettings.Num

/-- A number of a text is the double nearest to it. -/
def asNumber : Value → Option JsNum
  | .num n => some (.ofRat (negate n.neg n.mag))
  | _ => none

/-- A worker as the page has it. -/
structure PageWorker where
  name : String
  host : String
  port : JsNum
  ip : String
  vramTotal : JsNum
  vramUsed : JsNum
  ramTotal : JsNum
  ramUsed : JsNum
  gpuName : String
  cpuLoad : JsNum
  status : String
  lastSeen : String
  deriving DecidableEq

/-- A worker of a message, when it has every field with its type. -/
def pageWorker (v : Value) : Option PageWorker := do
  let name ← (property "name" v).bind asString
  let host ← (property "host" v).bind asString
  let port ← (property "port" v).bind asNumber
  let ip ← (property "ip" v).bind asString
  let vramTotal ← (property "vram_total" v).bind asNumber
  let vramUsed ← (property "vram_used" v).bind asNumber
  let ramTotal ← (property "ram_total" v).bind asNumber
  let ramUsed ← (property "ram_used" v).bind asNumber
  let gpuName ← (property "gpu_name" v).bind asString
  let cpuLoad ← (property "cpu_load" v).bind asNumber
  let status ← (property "status" v).bind asString
  let lastSeen ← (property "last_seen" v).bind asString
  return ⟨name, host, port, ip, vramTotal, vramUsed, ramTotal, ramUsed, gpuName, cpuLoad, status, lastSeen⟩

/-- The workers of `updateWorkers`. -/
def pageWorkers : Value → Option (List PageWorker)
  | .arr items => items.mapM pageWorker
  | _ => none

/-- The object of `updateModelStatus`; a field that is absent is `undefined`. -/
def pageModel (v : Value) : ModelMessage where
  path := (property "path" v).bind asString
  mmproj := (property "mmproj" v).bind asString
  loaded := (property "loaded" v).bind asBool
  running := (property "running" v).bind asBool

/-- The operator `||` on a property. -/
def orEmpty (empty : Value) (v : Option Value) : Value := v.elim empty fun v => if truthy v then v else empty

/-- `onmessage`: what it hands to `updateWorkers` and to `updateModelStatus`. -/
def onmessage (message : List UInt8) : Option (List PageWorker × ModelMessage) := do
  let data ← readText (Utf8.decode message)
  let workers ← pageWorkers (orEmpty (.arr []) (property "workers" data))
  return (workers, pageModel (orEmpty (.obj []) (property "model" data)))

/-- The answers of `fetchInitialData`. -/
def fetchedWorkers (body : List UInt8) : Option (List PageWorker) := (readText (Utf8.decode body)).bind pageWorkers

def fetchedModel (body : List UInt8) : Option ModelMessage := (readText (Utf8.decode body)).map pageModel

/-! ## What arrives -/

section Arrives

variable (time : Nat → String)

/-- A worker whose integers are rounded. -/
def heard (w : WorkerInfo) : PageWorker where
  name := w.name
  host := w.host
  port := .ofRat w.port
  ip := w.ip
  vramTotal := .ofRat w.vramTotal.toNat
  vramUsed := .ofRat w.vramUsed.toNat
  ramTotal := .ofRat w.ramTotal.toNat
  ramUsed := .ofRat w.ramUsed.toNat
  gpuName := w.gpuName
  cpuLoad := .fin w.cpuLoad
  status := w.status
  lastSeen := time w.lastSeen

/-- The worker itself. -/
def told (w : WorkerInfo) : PageWorker where
  name := w.name
  host := w.host
  port := .fin w.port
  ip := w.ip
  vramTotal := .fin w.vramTotal.toNat
  vramUsed := .fin w.vramUsed.toNat
  ramTotal := .fin w.ramTotal.toNat
  ramUsed := .fin w.ramUsed.toNat
  gpuName := w.gpuName
  cpuLoad := .fin w.cpuLoad
  status := w.status
  lastSeen := time w.lastSeen

/-- The integers of a worker. -/
def integers (w : WorkerInfo) : List ℤ :=
  [w.port, w.vramTotal.toNat, w.vramUsed.toNat, w.ramTotal.toNat, w.ramUsed.toNat]

theorem received_goString (s : String) : received (goString s) = .str (key s) :=
  congrArg Json.str (goString_key s)

theorem goText_written (s : String) : goText (key s) = s := by
  have h := GoStruct.goText_reread s.toList
  rw [JsJson.reread_text] at h
  exact h.trans String.ofList_toList

theorem asString_received (s : String) : asString (received (goString s)) = some s := by
  rw [received_goString]
  exact congrArg some (goText_written s)

theorem asBool_received (b : Bool) : asBool (received (.bool b)) = some b := rfl

/-- An integer arrives rounded. -/
theorem asNumber_int (n : ℤ) : asNumber (received (.num (.int n))) = some (.ofRat n) := by
  show some (Ui.ModelSettings.Num.ofRat (negate (n < 0) ((n.natAbs : ℚ≥0) : ℚ))) = _
  rw [NNRat.cast_natCast, Nat.cast_natAbs, negate]
  by_cases h : n < 0
  · rw [decide_eq_true h, if_pos rfl, abs_of_neg h, Int.cast_neg, neg_neg]
  · rw [decide_eq_false h, if_neg Bool.false_ne_true, abs_of_nonneg (not_lt.mp h)]

/-- A float arrives as it is. -/
theorem asNumber_float {q : ℚ} (h : IsDouble q) : asNumber (received (.num (.float (jsNumber q)))) = some (.fin q) :=
  congrArg some (ofRat_negate h)

theorem received_goObject (members : List (String × GoValue)) :
    received (goObject members) = object (members.map (Prod.map id received)) := by
  rw [received, goObject, object, Json.map_obj, List.map_map, List.map_map]
  exact congrArg Json.obj (List.map_congr_left fun p _ => Prod.ext (goString_key p.1) rfl)

theorem received_arr (items : List GoValue) : received (.arr items) = .arr (items.map received) :=
  Json.map_arr GoNumber.read GoJson.goString items

/-- The members of an object that arrives. -/
theorem property_received (k : String) (members : List (String × GoValue)) :
    property k (received (goObject members)) = (members.reverse.lookup k).map received := by
  rw [received_goObject, property_object, ← List.map_reverse]
  generalize members.reverse = l
  induction l with
  | nil => rfl
  | cons p l ih =>
    rw [List.map_cons, Prod.map_apply, List.lookup_cons, List.lookup_cons, id_eq]
    cases k == p.1 with
    | true => rfl
    | false => exact ih

variable {time}

/-- **A worker arrives** with its strings, and with its integers rounded. -/
theorem pageWorker_received {w : WorkerInfo} (h : IsDouble w.cpuLoad) :
    pageWorker (received (workerValue time w)) = some (heard time w) := by
  simp [pageWorker, workerValue, property_received, List.lookup, asString_received, asNumber_int, asNumber_float h,
    goUint, heard]

theorem mapM_of_forall {α β : Type} {f : α → Option β} {g : α → β} : ∀ {l : List α}, (∀ x ∈ l, f x = some (g x)) →
    l.mapM f = some (l.map g)
  | [], _ => rfl
  | x :: l, h => by
    obtain ⟨hx, hl⟩ := List.forall_mem_cons.mp h
    rw [List.mapM_cons, hx, mapM_of_forall hl]
    rfl

variable {workers : List WorkerInfo} (h : ∀ w ∈ workers, IsDouble w.cpuLoad)

include h

theorem pageWorkers_received :
    pageWorkers (received (workersValue time workers)) = some (workers.map (heard time)) := by
  rw [workersValue, received_arr, List.map_map, pageWorkers, List.mapM_map]
  exact mapM_of_forall fun w hw => pageWorker_received (h w hw)

/-- **A broadcast arrives.** -/
theorem onmessage_marshal {p : Payload} (hp : p.workers = workers) :
    onmessage (marshal (payloadValue time p)) = some (workers.map (heard time), broadcastModel p) := by
  subst hp
  let model := goObject [("loaded", .bool p.loaded), ("path", goString p.path)]
  have hworkers : orEmpty (.arr []) (property "workers" (received (payloadValue time p))) =
      received (workersValue time p.workers) := by
    have hprop : property "workers" (received (payloadValue time p)) =
        some (received (workersValue time p.workers)) := by
      simp [payloadValue, property_received]
    rw [hprop, workersValue, received_arr]
    rfl
  have hmodel : orEmpty (.obj []) (property "model" (received (payloadValue time p))) = received model := by
    have hprop : property "model" (received (payloadValue time p)) = some (received model) := by
      simp [payloadValue, property_received, List.lookup, model]
    rw [hprop, received_goObject]
    rfl
  have hpage : pageModel (received model) = broadcastModel p := by
    simp [pageModel, model, property_received, List.lookup, asString_received, asBool_received, broadcastModel]
  rw [onmessage, GoEncoder.readText_marshal]
  simp only [bind, Option.bind_some, hworkers, hmodel, hpage, pageWorkers_received h, pure]

end Arrives

/-! ## The three messages -/

/-- The loads of the registry are floats. -/
def FloatLoads (d : Discovery) : Prop := ∀ w ∈ d.getWorkers, IsDouble w.cpuLoad

section Messages

variable (time : Nat → String) (c : Controller)

/-- What the page gets of a state of the controller. -/
structure Messages : Prop where
  /-- A broadcast and the answers to `GET` have the same workers, -/
  push : onmessage (pushBody time c) = some (c.disc.getWorkers.map (heard time), broadcastModel (broadcastPayload c))
  workers : fetchedWorkers (workersBody time c) = some (c.disc.getWorkers.map (heard time))
  /-- the model state is the one of the controller, -/
  model : fetchedModel (modelBody c) = some (pollModel (handleModelGet c).body)
  /-- and the workers are its own exactly when their integers are doubles. -/
  exact : c.disc.getWorkers.map (heard time) = c.disc.getWorkers.map (told time) ↔
    ∀ w ∈ c.disc.getWorkers, ∀ n ∈ integers w, IsDouble n

variable {c} in
/-- The workers of an answer. -/
theorem fetchedWorkers_workersBody (h : FloatLoads c.disc) :
    fetchedWorkers (workersBody time c) = some (c.disc.getWorkers.map (heard time)) := by
  rw [fetchedWorkers, workersBody, GoEncoder.readText_encodeLine, Option.bind_some]
  exact pageWorkers_received h

/-- A number is what it is rounded to exactly when it is a double. -/
theorem ofRat_eq_iff {q : ℚ} : Ui.ModelSettings.Num.ofRat q = .fin q ↔ IsDouble q := by
  rw [← Float64.round_eq_self_iff]
  cases h : Float64.round q with
  | none => simp [Ui.ModelSettings.ofRat_of_none h]
  | some v => simp [Ui.ModelSettings.Num.ofRat_of_round h]

theorem heard_eq_iff (w : WorkerInfo) : heard time w = told time w ↔ ∀ n ∈ integers w, IsDouble n := by
  simp [heard, told, integers, ofRat_eq_iff]

/-- **What the page gets of any state of the controller**, whose strings are taken as valid UTF-8: other bytes would
reach the page as U+FFFD. -/
theorem messages_heard (h : FloatLoads c.disc) : Messages time c where
  push := onmessage_marshal h rfl
  workers := fetchedWorkers_workersBody time h
  model := by
    rw [fetchedModel, modelBody, GoEncoder.readText_encodeLine, Option.map_some]
    simp [pageModel, statusValue, property_received, List.lookup, asString_received, asBool_received, pollModel]
  exact := by
    rw [List.map_inj_left]
    exact forall₂_congr fun w _ => heard_eq_iff time w

end Messages

/-- A controller with a worker whose name needs escapes. -/
def namedController : Controller :=
  { Api.idleController with disc := newDiscovery.addManualWorker 0 "10.0.0.7" 50052 "<\"gpu\"> & \u2028" }

theorem messages_heard_named : Messages (fun _ => "2024-01-01T00:00:00Z") namedController := by
  have hworkers : ∀ w ∈ namedController.disc.getWorkers, w.cpuLoad = 0 := List.forall_mem_singleton.mpr rfl
  refine messages_heard _ _ fun w hw => ?_
  rw [hworkers w hw]
  exact_mod_cast Float64.isDouble_natCast (n := 0) (by decide)

end LaManchaland.Wire
