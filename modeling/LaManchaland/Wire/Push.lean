import LaManchaland.Api.Broadcast
import LaManchaland.Api.Clients
import LaManchaland.Lib.Readers
import LaManchaland.Ui.Animation

/-!
# Broadcasts and the page that they reach

The operations of the controller with their data: `code` has the locks of `Api.prog` (`erase_code`) and between them
what is read and written. `broadcastUpdate` fills a `Draft`, first the workers and then the model state, and writes it
to one client after the other; `Feed` follows one of these, which is registered and whose writes succeed, with the
messages that it has got.

Other operations run between the two reads and between the writes. The model state of a message is nevertheless the
one that the controller has when the message is written (`pushed_current`), since its writers wait for the readers of
`api`. So the last message is current, or a thread is on its way to the loop, as long as every POST to the model is one
that pushes (`pushed_pending`); and a page is up to date when its last message comes through `Ui.Animation.receive`.
-/

namespace LaManchaland.Wire

open Runs
open Api (Controller Payload Op Lock Work Section StartOutcome ModelPost AddRequest RemoveRequest Outside)
open Ui.Animation (Page Passes)
open Locks (Act Pool Hold Meaning Showing Data Guarded Followed Filled Shows Pending OnTheWay reaches)

/-! ## What the operations read and write -/

/-- What an operation does at one moment. -/
inductive Effect where
  | sect (a : Section)
  | removeWorker (req : RemoveRequest)
  | addToRegistry (req : AddRequest)
  | appendWorker (worker : Option String)
  | eraseWorker
  | scanInsert
  | update
  | getWorkers
  | readModel
  | access (w : Work)

/-- What the outside brings to an effect: the environment, the clock, an announcement, a worker or its index, the number
of a child or of a connection. -/
structure Input where
  outside : Outside
  now : Nat
  entry : ServiceEntry
  worker : String
  index : Nat
  child : Nat
  conn : Nat

/-- The controller, and what the client has got. -/
structure Feed where
  ctl : Controller
  inbox : List Payload

/-- The model state of a message. -/
structure ModelPart where
  path : String
  loaded : Bool
  rpcWorkers : List String

def modelPart (f : Feed) : ModelPart := ⟨f.ctl.api.modelPath, f.ctl.api.modelLoaded, f.ctl.api.rpcWorkers⟩

/-- The message of `broadcastUpdate` as far as it is filled. -/
structure Draft where
  workers : List WorkerInfo
  model : Option ModelPart

def Draft.payload (d : Draft) : Option Payload := d.model.map fun m => ⟨d.workers, m.path, m.loaded, m.rpcWorkers⟩

/-- The controller after an effect. -/
def Effect.run (x : Input) (c : Controller) : Effect → Controller
  | .sect a => (a.run x.outside c).1
  | .removeWorker req => { c with disc := c.disc.removeWorker (endpoint req.host req.port) }
  | .addToRegistry req => Api.addToRegistry c x.now req
  | .appendWorker worker => { c with api := { c.api with rpcWorkers := c.api.rpcWorkers ++ [worker.getD x.worker] } }
  | .eraseWorker => { c with api := { c.api with rpcWorkers := c.api.rpcWorkers.eraseIdx x.index } }
  | .scanInsert => { c with disc := c.disc.scanInsert (parseEntry x.now x.entry) }
  | .update => { c with llm := (Llmserver.update x.child c.llm).getD c.llm }
  | .getWorkers | .readModel => c
  | .access .clientLoop => Api.broadcastUpdate c x.outside.writeFails
  | .access .register => Api.Clients.register x.conn c
  | .access .remove => Api.Clients.unregister x.conn c

/-- The draft after an effect. -/
def Effect.fill (f : Feed) (d : Draft) : Effect → Draft
  | .getWorkers => { d with workers := f.ctl.disc.getWorkers }
  | .readModel => { d with model := some (modelPart f) }
  | _ => d

/-- What the client gets. -/
def Effect.sent (d : Draft) : Effect → List Payload
  | .access .clientLoop => d.payload.toList
  | _ => []

def Effect.work (x : Input) (e : Effect) (s : Feed × Draft) : Feed × Draft :=
  (⟨e.run x s.1.ctl, s.1.inbox ++ e.sent s.2⟩, e.fill s.1 s.2)

/-! ## The programs -/

abbrev Code := List (Act Lock Op Effect)

def lockedCode (k : Lock) (e : Effect) : Code := [.lock k, .work e, .unlock k]

def broadcastCode : Code :=
  [.rlock .api, .rlock .disc, .work .getWorkers, .runlock .disc, .work .readModel, .work (.access .clientLoop),
    .runlock .api]

/-- `AddRPCWorker`, and `RemoveRPCWorker` in range. -/
def broadcastInsideCode (e : Effect) : Code := .lock .api :: .work e :: broadcastCode ++ [.unlock .api]

def sectionCode (start : StartOutcome) (a : Section) : Code :=
  match a with
  | .setPaths .. | .setLoaded | .clearLoaded | .clearModel => lockedCode .api (.sect a)
  | .set _ | .stop => lockedCode .llm (.sect a)
  | .goLoad => [.go (.load start)]
  | .copyWorkers => [.lock .api, .lock .llm, .work (.sect a), .unlock .llm, .unlock .api]
  | .start =>
    match start with
    | .noLaunch => lockedCode .llm (.sect a)
    | .timeout | .ready => [.lock .llm, .work (.sect a), .go .exitGoroutine, .unlock .llm]
  | .broadcast => broadcastCode

def code : Op → Code
  | .workersGet => [.rlock .disc, .runlock .disc]
  | .workersDelete none => [.rlock .api, .runlock .api]
  | .workersDelete (some req) =>
    .rlock .api :: lockedCode .disc (.removeWorker req) ++ broadcastCode ++ [.runlock .api]
  | .addWorker _ none => []
  | .addWorker method (some req) =>
    if Api.acceptsWorker method (some req) then
      lockedCode .disc (.addToRegistry req) ++ broadcastInsideCode (.appendWorker (endpoint req.host req.port))
        ++ broadcastCode
    else []
  | .addRPCWorker => broadcastInsideCode (.appendWorker none)
  | .removeRPCWorker inRange => if inRange then broadcastInsideCode .eraseWorker else [.lock .api, .unlock .api]
  | .modelGet => [.rlock .api, .lock .llm, .unlock .llm, .runlock .api]
  | .model r start => r.handler.flatMap (sectionCode start)
  | .load start => (Api.ranSections start).flatMap (sectionCode start)
  | .exitGoroutine => lockedCode .llm .update
  | .webSocket upgraded =>
    if upgraded then [.lock .api, .work (.access .register), .unlock .api, .go .wsCleanup] else []
  | .wsCleanup => lockedCode .api (.access .remove)
  | .broadcastUpdate => broadcastCode
  | .scannerInsert => lockedCode .disc .scanInsert

/-- An action without its data. -/
def erase : Act Lock Op Effect → Option (Act Lock Op Work)
  | .lock k => some (.lock k)
  | .unlock k => some (.unlock k)
  | .rlock k => some (.rlock k)
  | .runlock k => some (.runlock k)
  | .go o => some (.go o)
  | .work (.access w) => some (.work w)
  | .work _ => none

theorem erase_section (start : StartOutcome) (a : Section) :
    (sectionCode start a).filterMap erase = a.locks start := by
  cases a with
  | start => cases start <;> rfl
  | _ => rfl

theorem erase_flatMap (start : StartOutcome) (l : List Section) :
    (l.flatMap (sectionCode start)).filterMap erase = l.flatMap (Section.locks start) := by
  rw [List.filterMap_flatMap]
  exact List.flatMap_congr fun a _ => erase_section start a

/-- **The programs are those of the locks**, with the data between. -/
theorem erase_code (op : Op) : (code op).filterMap erase = Api.prog op := by
  cases op with
  | workersDelete body => cases body <;> rfl
  | addWorker method body =>
    cases body with
    | none => simp [code, Api.prog, Api.acceptsWorker]
    | some req =>
      simp only [code, Api.prog]
      split <;> rfl
  | removeRPCWorker inRange => cases inRange <;> rfl
  | model r start => exact erase_flatMap start _
  | load start => exact erase_flatMap start _
  | webSocket upgraded => cases upgraded <;> rfl
  | _ => rfl

/-! ## What is guarded, and what is shown -/

/-- The section writes the model state that a message has. -/
def writesModel : Section → Bool
  | .setPaths .. | .setLoaded | .clearLoaded | .clearModel => true
  | _ => false

/-- The effect writes the path or the flag. -/
def Effect.affects : Effect → Bool
  | .sect a => writesModel a
  | _ => false

/-- The effect writes the model state of the API server. -/
def Effect.changes : Effect → Bool
  | .appendWorker _ | .eraseWorker => true
  | e => e.affects

def Effect.notes : Effect → Bool
  | .getWorkers | .readModel => true
  | _ => false

section Effects

variable {x : Input} {f : Feed} {d : Draft}

/-- The other sections leave the model state alone. -/
theorem modelPart_section {a : Section} (h : writesModel a = false) (o : Outside) (c : Controller) :
    (a.run o c).1.api.modelPath = c.api.modelPath ∧ (a.run o c).1.api.modelLoaded = c.api.modelLoaded ∧
      (a.run o c).1.api.rpcWorkers = c.api.rpcWorkers := by
  cases a with
  | setPaths path mmproj => cases h
  | setLoaded => cases h
  | clearLoaded => cases h
  | clearModel => cases h
  | _ => exact ⟨rfl, rfl, rfl⟩

theorem modelPart_work {e : Effect} (h : e.changes = false) : modelPart (e.work x (f, d)).1 = modelPart f := by
  cases e with
  | sect a =>
    obtain ⟨hpath, hloaded, hworkers⟩ := modelPart_section h x.outside f.ctl
    simp only [modelPart, Effect.work, Effect.run, hpath, hloaded, hworkers]
  | appendWorker worker => cases h
  | eraseWorker => cases h
  | access w => cases w <;> rfl
  | _ => rfl

/-- A draft that has the model state keeps it or reads it again. -/
theorem model_fill {e : Effect} : (e.fill f d).model = d.model ∨ (e.fill f d).model = some (modelPart f) := by
  cases e with
  | readModel => exact .inr rfl
  | _ => exact .inl rfl

end Effects

/-- The effects, with the model state as what `api` guards. -/
def meaning : Meaning Input Effect Feed Draft ModelPart where
  work := fun x e => e.work x
  view := modelPart
  blank := ⟨[], none⟩
  changes := Effect.changes
  notes := Effect.notes
  agrees v d := ∀ m ∈ d.model, m = v
  agrees_blank _ m hm := by cases hm
  view_work _ _ _ _ h := modelPart_work h
  own_work x e f d h := by cases e <;> first | rfl | cases h
  agrees_work x e f d h m hm := by
    have hm : m ∈ (e.fill f d).model := hm
    rcases model_fill (f := f) (d := d) (e := e) with hd | hd
    · exact h m (hd ▸ hm)
    · rw [hd] at hm
      exact (Option.mem_some.mp hm).symm

section Discipline

theorem need_locked {e : Effect} (hn : e.notes = false) {h : Hold} (hw : e.changes = true → h.writes = true) :
    meaning.Need h e :=
  ⟨hw, fun hr => absurd (hn.symm.trans hr) (by decide)⟩

theorem guarded_locked {k : Lock} {e : Effect} (hn : e.notes = false) (hk : e.changes = true → k = .api) {p : Code}
    (hp : Guarded .api meaning.Need .none p) : Guarded .api meaning.Need .none (lockedCode k e ++ p) := by
  cases k with
  | api => exact ⟨need_locked hn fun _ => rfl, hp⟩
  | disc => exact ⟨need_locked hn fun h => absurd (hk h) (by decide), hp⟩
  | llm => exact ⟨need_locked hn fun h => absurd (hk h) (by decide), hp⟩

/-- A broadcast notes what it reads of `api`. -/
theorem guarded_broadcast {h : Hold} {p : Code} (hp : Guarded .api meaning.Need h p) :
    Guarded .api meaning.Need h (broadcastCode ++ p) := by
  have hreads : 0 < h.reads + 1 := Nat.succ_pos _
  have hnote : ∀ {e : Effect}, e.changes = false → meaning.Need ⟨h.reads + 1, h.writes⟩ e :=
    fun hc => ⟨fun ht => absurd (hc.symm.trans ht) (by decide), fun _ => hreads⟩
  exact ⟨hnote rfl, hnote rfl, hnote rfl, hp⟩

theorem guarded_section (start : StartOutcome) (a : Section) {p : Code} (hp : Guarded .api meaning.Need .none p) :
    Guarded .api meaning.Need .none (sectionCode start a ++ p) := by
  have hother : ∀ {e : Effect}, e.notes = false → e.changes = false → ∀ h, meaning.Need h e :=
    fun hn hc h => need_locked hn fun ht => absurd (hc.symm.trans ht) (by decide)
  cases a with
  | goLoad => exact hp
  | copyWorkers => exact ⟨hother rfl rfl _, hp⟩
  | start =>
    cases start with
    | noLaunch => exact guarded_locked rfl (fun h => by cases h) hp
    | _ => exact ⟨hother rfl rfl _, hp⟩
  | broadcast => exact guarded_broadcast hp
  | set f => exact guarded_locked rfl (fun h => by cases h) hp
  | stop => exact guarded_locked rfl (fun h => by cases h) hp
  | _ => exact guarded_locked rfl (fun _ => rfl) hp

theorem guarded_inside {e : Effect} (hn : e.notes = false) {p : Code} (hp : Guarded .api meaning.Need .none p) :
    Guarded .api meaning.Need .none (broadcastInsideCode e ++ p) :=
  ⟨need_locked hn fun _ => rfl, guarded_broadcast (p := .unlock .api :: p) hp⟩

/-- **Every operation is guarded**: it writes the model state with `api` locked, and notes it with `api` read. -/
theorem guarded_code (op : Op) : Guarded .api meaning.Need .none (code op) := by
  cases op with
  | workersDelete body =>
    cases body with
    | none => trivial
    | some req =>
      refine ⟨need_locked rfl (fun h => by cases h), ?_⟩
      exact guarded_broadcast (p := [.runlock .api]) trivial
  | addWorker method body =>
    cases body with
    | none => trivial
    | some req =>
      rw [code]
      split
      · rw [List.append_assoc]
        refine guarded_locked rfl (fun h => by cases h) (guarded_inside rfl ?_)
        exact guarded_broadcast (p := []) trivial
      · trivial
  | addRPCWorker => exact guarded_inside (p := []) rfl trivial
  | removeRPCWorker inRange =>
    cases inRange with
    | false => trivial
    | true => exact guarded_inside (p := []) rfl trivial
  | model r start => exact Guarded.flatMap fun a _ _ hp => guarded_section start a hp
  | load start => exact Guarded.flatMap fun a _ _ hp => guarded_section start a hp
  | exitGoroutine => exact guarded_locked (p := []) rfl (fun h => by cases h) trivial
  | webSocket upgraded =>
    cases upgraded with
    | false => trivial
    | true => exact ⟨need_locked rfl fun _ => rfl, trivial⟩
  | wsCleanup => exact guarded_locked (p := []) rfl (fun h => by cases h) trivial
  | broadcastUpdate => exact guarded_broadcast (p := []) trivial
  | scannerInsert => exact guarded_locked (p := []) rfl (fun h => by cases h) trivial
  | _ => trivial

/-! ### Pushes -/

end Discipline

/-! ## Runs -/

abbrev State := Data Lock Op Effect Feed Draft

/-- The next action of one of the threads. -/
def push : State → Nat × Input → Option State := Locks.dataStep meaning code .api

/-- The operations are under way, and the client has got the state before them. -/
def start (c : Controller) (ops : List Op) : State :=
  Data.init meaning ⟨c, [Api.broadcastPayload c]⟩ (ops.map code)

/-- The page gets a message. -/
def pushEvent (p : Payload) : Ui.Animation.Event := .receive (some p.workers) (some (Ui.broadcastModel p))

/-- Another broadcast would change nothing of the model that the page shows. -/
def UpToDate (page : Page) (c : Controller) : Prop :=
  ∀ next, Ui.Animation.step page (pushEvent (Api.broadcastPayload c)) = some next → next.view = page.view

section Runs

variable {c : Controller} {ops : List Op} {ls : List (Nat × Input)} {s t : State}

theorem current_push (hs : exec push (start c ops) ls = some s) : Locks.Current meaning .api s := by
  refine Locks.current_exec guarded_code (Locks.current_init (fun p hp => ?_) _) hs
  obtain ⟨op, _, rfl⟩ := List.mem_map.mp hp
  exact guarded_code op

/-- **What a message says of the model is so when it is written**, whatever has run since it was put together. -/
theorem pushed_current (hs : exec push (start c ops) ls = some s) {l : Nat × Input} (ht : push s l = some t) :
    t.shared.inbox = s.shared.inbox ∨ ∃ workers, t.shared.inbox =
      s.shared.inbox ++ [{ Api.broadcastPayload s.shared.ctl with workers := workers }] := by
  have hcur := current_push hs
  cases Locks.dataStep_spec ht with
  | @work u e rest hi hu =>
    have hsent : e.sent (s.own l.1) = [] ∨ ∃ m, (s.own l.1).model = some m ∧
        e.sent (s.own l.1) = [⟨(s.own l.1).workers, m.path, m.loaded, m.rpcWorkers⟩] := by
      cases e with
      | access w =>
        cases w with
        | clientLoop =>
          cases hm : (s.own l.1).model with
          | none => exact .inl (by simp [Effect.sent, Draft.payload, hm])
          | some m => exact .inr ⟨m, rfl, by simp [Effect.sent, Draft.payload, hm]⟩
        | _ => exact .inl rfl
      | _ => exact .inl rfl
    show s.shared.inbox ++ e.sent (s.own l.1) = _ ∨ ∃ workers, s.shared.inbox ++ e.sent (s.own l.1) = _
    rcases hsent with hnone | ⟨m, hm, hsome⟩
    · rw [hnone, List.append_nil]
      exact .inl rfl
    · -- the thread still reads `api`, so nobody has written since
      have hm : m = modelPart s.shared := hcur.agrees l.1 m hm
      rw [hsome, hm]
      exact .inr ⟨_, rfl⟩
  | leave hi hu => exact .inl rfl
  | other hwork hleave hu => exact .inl rfl

end Runs

/-! ## Runs of one request -/

def quietInput : Input := ⟨Api.outsideUp, 0, ⟨"", [], 0, []⟩, "", 0, 0, 0⟩

/-- A POST of `action` to an idle controller, up to its `n`-th step. -/
def oneRequest (action : String) (n : Nat) : Option State :=
  exec push (start Api.idleController [.model (Api.postAction action) .noLaunch]) (List.replicate n (0, quietInput))

/-- An unload writes its message. -/
theorem pushed_current_unload : ∃ s t, oneRequest "unload" 25 = some s ∧ push s (0, quietInput) = some t ∧
    (t.shared.inbox = s.shared.inbox ∨ ∃ workers, t.shared.inbox =
      s.shared.inbox ++ [{ Api.broadcastPayload s.shared.ctl with workers := workers }]) := by
  obtain ⟨s, hs⟩ : ∃ s, oneRequest "unload" 25 = some s := ⟨_, rfl⟩
  obtain ⟨t, ht⟩ : ∃ t, (oneRequest "unload" 25).bind (fun s => push s (0, quietInput)) = some t := ⟨_, rfl⟩
  rw [hs, Option.bind_some] at ht
  exact ⟨s, t, hs, ht, pushed_current hs ht⟩

/-- A POST without an action pushes nothing: it leaves the page behind. -/
theorem settings_not_upToDate : ∃ s next, oneRequest "" 12 = some s ∧ (∀ p ∈ s.pool.threads, p = []) ∧
    exec Ui.Animation.step Page.init (s.shared.inbox.map pushEvent) = some next ∧
    ¬UpToDate next s.shared.ctl := by
  refine ⟨_, _, rfl, fun p hp => List.mem_singleton.mp hp, rfl, fun h => ?_⟩
  have hpath : "model.gguf" = "" := congrArg Ui.ModelView.modelPath (h _ rfl)
  exact absurd hpath (by decide)

end LaManchaland.Wire
