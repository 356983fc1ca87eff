import LaManchaland.Api.Distribution

/-!
# The startup of the controller

`startup` is what the controller's `main` does to the llama-server manager, the registry and the API server before it
serves: the settings, the loop over the configured workers, and the raw list handed to the manager. The loop reads
every worker with `fmt.Sscanf(worker, "%[^:]:%d", …)`; package fmt has no verb `[`, so the call fails at once and the
worker is dropped. `configuredReach_iff`: the configured workers reach the engine only when there are none.
-/

namespace LaManchaland.Startup

open Llmserver (Setting Machine Env itoa flagValues)
open Api (Controller)
open Runs

/-! ## `fmt.Sscanf` -/

/-- The type of a destination. -/
inductive Dest where
  | string
  | int

/-- A value stored in a destination. -/
inductive Value where
  | string (s : String)
  | int (n : Int)

/-- The verbs that package fmt documents for scanning into a destination. -/
def okVerb : Dest → Char → Bool
  | .string, verb => verb ∈ ['s', 'v', 'q', 'x', 'X']
  | .int, verb => verb ∈ ['b', 'd', 'o', 'U', 'x', 'X', 'v', 'c']

/-- How a documented verb reads the input: the value and the rest of the input. -/
abbrev Scan := Char → Dest → List Char → Option (Value × List Char)

/-- `fmt.Sscanf` for formats without white space, widths and `%%`: the values stored, in order of the destinations.
It ends at the first error; an unsupported verb is one. -/
def sscanf (scan : Scan) : List Char → List Char → List Dest → List Value
  | '%' :: verb :: format, input, d :: ds =>
    if okVerb d verb then
      match scan verb d input with
      | some (v, rest) => v :: sscanf scan format rest ds
      | none => []
    else []
  | x :: format, y :: input, ds => if x ≠ '%' ∧ x = y then sscanf scan format input ds else []
  | _, _, _ => []

/-! ## `main` -/

structure ControllerConfig where
  host : String
  port : Int
  modelPath : String
  contextSize : Int
  threads : Int
  rpcWorkers : List String
  autoDiscover : Bool

/-- The manager with its configured settings. -/
def configuredLlm (cfg : ControllerConfig) : Machine :=
  let llm := Llmserver.init 8081
  let llm := if cfg.modelPath ≠ "" then Llmserver.set (.setModelPath cfg.modelPath) llm else llm
  let llm := if cfg.contextSize ≠ 0 then Llmserver.set (.setCtxSize cfg.contextSize) llm else llm
  if cfg.threads ≠ 0 then Llmserver.set (.setThreads cfg.threads) llm else llm

/-- The values of `wHost` and `wPort` after the scan, initially empty and zero. -/
def scanWorker (scan : Scan) (worker : String) : String × Int :=
  match sscanf scan "%[^:]:%d".toList worker.toList [.string, .int] with
  | .string wHost :: .int wPort :: _ => (wHost, wPort)
  | .string wHost :: _ => (wHost, 0)
  | _ => ("", 0)

/-- One round of the loop over the configured workers; no client is connected yet. -/
def addConfigured (scan : Scan) (now : Nat) (c : Controller) (worker : String) : Controller :=
  let w := scanWorker scan worker
  if w.1 ≠ "" ∧ 0 < w.2 then
    let c' := Api.addRPCWorker c (fun _ => false) w.1 w.2
    { c' with disc := c'.disc.addManualWorker now w.1 w.2 ("worker-" ++ endpoint w.1 w.2) }
  else c

/-- The controller when `main` begins to serve. -/
def startup (scan : Scan) (now : Nat) (cfg : ControllerConfig) : Controller :=
  let c := Api.setModelPath ⟨Api.newServer, newDiscovery, configuredLlm cfg⟩ cfg.modelPath
  let c := cfg.rpcWorkers.foldl (addConfigured scan now) c
  if 0 < cfg.rpcWorkers.length then { c with llm := Llmserver.set (.setRPCWorkers cfg.rpcWorkers) c.llm } else c

/-! ## No configured worker is read -/

/-- The format stops at its first verb, whatever the documented verbs read. -/
theorem scanWorker_eq (scan : Scan) (worker : String) : scanWorker scan worker = ("", 0) := by
  have : sscanf scan "%[^:]:%d".toList worker.toList [.string, .int] = [] := by
    rw [show "%[^:]:%d".toList = ['%', '[', '^', ':', ']', ':', '%', 'd'] from rfl, sscanf]
    rfl
  rw [scanWorker, this]

/-- The loop leaves the controller as it was. -/
theorem foldl_addConfigured (scan : Scan) (now : Nat) (c : Controller) (ws : List String) :
    ws.foldl (addConfigured scan now) c = c := by
  induction ws with
  | nil => rfl
  | cons w ws ih =>
    have : addConfigured scan now c w = c := by simp [addConfigured, scanWorker_eq]
    rw [List.foldl_cons, this, ih]

section Startup

variable (scan : Scan) (now : Nat) (cfg : ControllerConfig)

/-! What `main` leaves of the API server, the registry and the manager. -/

theorem startup_api : (startup scan now cfg).api = { Api.newServer with modelPath := cfg.modelPath } := by
  unfold startup
  simp only [foldl_addConfigured]
  split <;> rfl

theorem startup_disc : (startup scan now cfg).disc = newDiscovery := by
  unfold startup
  simp only [foldl_addConfigured]
  split <;> rfl

theorem startup_llm : (startup scan now cfg).llm =
    let llm := Llmserver.set (.setModelPath cfg.modelPath) (configuredLlm cfg)
    if 0 < cfg.rpcWorkers.length then Llmserver.set (.setRPCWorkers cfg.rpcWorkers) llm else llm := by
  unfold startup
  simp only [foldl_addConfigured]
  split <;> rfl

/-- The configured manager has no child, no worker and no projector. -/
theorem configuredLlm_fresh : (configuredLlm cfg).children = [] ∧ (configuredLlm cfg).srv.rpcWorkers = [] ∧
    (configuredLlm cfg).srv.mmprojPath = "" := by
  unfold configuredLlm
  split <;> split <;> split <;> exact ⟨rfl, rfl, rfl⟩

theorem startup_list : (startup scan now cfg).api.rpcWorkers = [] := by
  rw [startup_api]
  rfl

theorem startup_modelLoaded : (startup scan now cfg).api.modelLoaded = false := by
  rw [startup_api]
  rfl

theorem startup_children : (startup scan now cfg).llm.children = [] := by
  rw [startup_llm]
  split <;> exact (configuredLlm_fresh cfg).1

end Startup

/-! ## The configured workers and the engine -/

/-- An entry `host:port`: the host is not empty and has no colon, the port is in `1..65535`. -/
def WellFormed (entry : String) : Prop :=
  ∃ (host : String) (port : Int), host ≠ "" ∧ ':' ∉ host.toList ∧ 1 ≤ port ∧ port ≤ 65535 ∧ entry = endpoint host port

/-- A step that adds and removes no worker. -/
def KeepsWorkers : Api.Distribution.Label → Prop
  | .discover .. | .add .. | .append .. | .remove .. => False
  | _ => True

/-- The configured workers reach the API server, the registry and every later command line. -/
structure ConfiguredReach (scan : Scan) (now : Nat) (cfg : ControllerConfig) : Prop where
  list : (startup scan now cfg).api.rpcWorkers = cfg.rpcWorkers
  registered : ∀ e ∈ cfg.rpcWorkers, e ∈ (startup scan now cfg).disc.workers
  launched : ∀ pre post t env child, (∀ l ∈ pre ++ post, KeepsWorkers l) →
    exec Api.Distribution.step ⟨startup scan now cfg, []⟩ (pre ++ .copy :: post) = some t →
    Llmserver.CanLaunch env t.ctl.llm → (Llmserver.start env t.ctl.llm).1.children.getLast? = some child →
    flagValues "--rpc" child.args = cfg.rpcWorkers

/-- A step that adds no worker keeps both lists empty. -/
theorem step_empty {s t : Api.Distribution.Cluster} {l : Api.Distribution.Label}
    (hs : s.ctl.api.rpcWorkers = [] ∧ s.ctl.llm.srv.rpcWorkers = []) (hk : KeepsWorkers l)
    (h : Api.Distribution.step s l = some t) : t.ctl.api.rpcWorkers = [] ∧ t.ctl.llm.srv.rpcWorkers = [] := by
  obtain ⟨hlist, hcopied, _⟩ := Api.Distribution.step_lists h
  have : Api.Distribution.appended [l] = [] := by
    cases l with
    | append writeFails host port => exact absurd hk id
    | _ => rfl
  rw [hlist, hcopied, this, hs.1, hs.2]
  exact ⟨rfl, by split <;> rfl⟩

theorem startup_llm_list (scan : Scan) (now : Nat) (cfg : ControllerConfig) (h : cfg.rpcWorkers = []) :
    (startup scan now cfg).llm.srv.rpcWorkers = [] := by
  rw [startup_llm, if_neg (by simp [h])]
  exact (configuredLlm_fresh cfg).2.1

/-- **The exact condition for the configured workers to reach the engine**: there are none. -/
theorem configuredReach_iff (scan : Scan) (now : Nat) (cfg : ControllerConfig) :
    ConfiguredReach scan now cfg ↔ cfg.rpcWorkers = [] := by
  constructor
  · intro h
    rw [← h.list, startup_list]
  · intro h
    refine ⟨by rw [startup_list, h], fun e he => absurd he (by simp [h]), ?_⟩
    intro pre post t env child hk ht hl hc
    have hinit := startup_llm_list scan now cfg h
    have hmeets : Meets Api.Distribution.step (fun _ l => KeepsWorkers l) ⟨startup scan now cfg, []⟩
        (pre ++ .copy :: post) := by
      refine Meets.of_forall _ fun l hl => ?_
      rw [List.mem_append, List.mem_cons] at hl
      rcases hl with hl | rfl | hl
      · exact hk l (List.mem_append_left _ hl)
      · trivial
      · exact hk l (List.mem_append_right _ hl)
    have hend := hmeets.last (P := fun s => s.ctl.api.rpcWorkers = [] ∧ s.ctl.llm.srv.rpcWorkers = [])
      (fun _ _ _ hs hk ht => step_empty hs hk ht) ⟨startup_list scan now cfg, hinit⟩ ht
    rw [Llmserver.start_getLast? hl, Option.some.injEq] at hc
    rw [← hc, h]
    show flagValues "--rpc" t.ctl.llm.srv.buildArgs = []
    rw [Llmserver.flagValues_workers]
    exact hend.2

/-- A configuration with one worker. -/
def oneWorker : ControllerConfig :=
  ⟨"0.0.0.0", 8080, "/path/to/model.gguf", 4096, 0, ["192.168.1.100:50051"], true⟩

/-- The worker of `oneWorker` is well formed and lost. -/
theorem configured_worker_lost : ¬∀ (scan : Scan) (now : Nat) (cfg : ControllerConfig),
    (∀ e ∈ cfg.rpcWorkers, WellFormed e) → ConfiguredReach scan now cfg := by
  intro h
  have hwf : ∀ e ∈ oneWorker.rpcWorkers, WellFormed e := by
    intro e he
    rw [List.mem_singleton.mp he]
    exact ⟨"192.168.1.100", 50051, by decide, by decide, by decide, by decide, by decide⟩
  have := (h (fun _ _ _ => none) 0 oneWorker hwf).list
  rw [startup_list] at this
  cases this

end LaManchaland.Startup
