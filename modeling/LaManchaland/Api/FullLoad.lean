import LaManchaland.Api.Settings
import LaManchaland.Api.Workers
import LaManchaland.Startup

/-!
# Loads that state everything

A load request sets the settings that it names before the argument vector is built, but each setting only under its own
guard, and a value that does not pass its guard leaves the setting of an earlier request in force. `loadArgv` is the
argument vector of a load that is handled alone (`loadArgv_eq`).

`historyFree_iff`: a load that states all its fields builds the same argument vector after every history exactly when
each of its numbers passes its guard. So neither "CPU only" nor "automatic threads" can be asked for after a request
that set a number.
-/

namespace LaManchaland.Api

open Runs Sections
open Llmserver (Setting CanLaunch flagValues itoa)
open Startup (Scan ControllerConfig startup)

/-- The argument vector of a load: its handler runs alone, its goroutine copies the workers, and `Start` builds it. -/
def loadArgv (o : Outside) (req : ModelPost) (c : Controller) : List String :=
  (copyWorkers ((ModelRequest.post (some req)).handle o c)).llm.srv.buildArgs

/-- The controllers that requests to the worker endpoints, and any run of model requests after them, lead to. -/
def Reachable (c : Controller) : Prop :=
  ∃ (scan : Scan) (now : Nat) (cfg : ControllerConfig) (rs : List WorkerRequest) (c₀ : Controller) (ls : List Label)
    (s : Sys), exec workerStep (startup scan now cfg) rs = some c₀ ∧ exec step (Sys.init c₀) ls = some s ∧
      s.pool.state = c

/-- A load that states all its fields, as the page sends it; 0 threads are automatic, 0 layers are on the CPU. -/
structure ModelPost.Full (req : ModelPost) : Prop where
  load : req.isLoad = true
  path : req.path ≠ ""
  ctxSize : 0 < req.ctxSize
  nGPULayers : -1 ≤ req.nGPULayers
  threads : 0 ≤ req.threads
  nPredict : -1 ≤ req.nPredict

/-- The load builds the same argument vector in any two reachable states with the same workers and port. -/
def HistoryFree (o : Outside) (req : ModelPost) : Prop :=
  ∀ c c', Reachable c → Reachable c' → c.api.rpcWorkers = c'.api.rpcWorkers →
    c.llm.srv.listenPort = c'.llm.srv.listenPort → loadArgv o req c = loadArgv o req c'

section Load

variable (o : Outside) (req : ModelPost) (c : Controller)

theorem run_listenPort (a : Section) : (a.run o c).1.llm.srv.listenPort = c.llm.srv.listenPort := by
  cases a with
  | set f => cases f <;> rfl
  | start => exact Llmserver.Server.settings_congr (Llmserver.start_settings o.env c.llm) (·.listenPort) fun _ => rfl
  | stop => exact Llmserver.Server.settings_congr (Llmserver.stopLocked_settings c.llm) (·.listenPort) fun _ => rfl
  | _ => rfl

theorem run_rpcWorkers (a : Section) : (a.run o c).1.api.rpcWorkers = c.api.rpcWorkers := by
  cases a <;> rfl

/-- The settings that a load leaves, each from the request or from before. -/
def loadServer : Llmserver.Server :=
  { c.llm.srv with
    modelPath := req.path
    mmprojPath := req.mmproj
    ctxSize := if 0 < req.ctxSize then req.ctxSize else c.llm.srv.ctxSize
    nGPU := if req.nGPULayers ≠ 0 then req.nGPULayers else c.llm.srv.nGPU
    nThreads := if 0 < req.threads then req.threads else c.llm.srv.nThreads
    nPredict := if 0 < req.nPredict then req.nPredict else c.llm.srv.nPredict
    rpcWorkers := c.api.rpcWorkers }

/-- **The argument vector of a load** is that of the settings it leaves. -/
theorem loadArgv_eq : loadArgv o req c = (loadServer req c).buildArgs := by
  have hvalues := congrFun (values_post o req c)
  have guarded : ∀ (p : Prop) [Decidable p] (n m : Int), (if p then some n else none).getD m = if p then n else m := by
    intro p _ n m
    split <;> rfl
  have hpath : ((ModelRequest.post (some req)).handle o c).llm.srv.modelPath = req.path := hvalues .modelPath
  have hmmproj : ((ModelRequest.post (some req)).handle o c).llm.srv.mmprojPath = req.mmproj := hvalues .mmprojPath
  have hctx : ((ModelRequest.post (some req)).handle o c).llm.srv.ctxSize = (loadServer req c).ctxSize :=
    (hvalues .ctxSize).trans (guarded (0 < req.ctxSize) _ _)
  have hgpu : ((ModelRequest.post (some req)).handle o c).llm.srv.nGPU = (loadServer req c).nGPU :=
    (hvalues .nGPU).trans (guarded (req.nGPULayers ≠ 0) _ _)
  have hthreads : ((ModelRequest.post (some req)).handle o c).llm.srv.nThreads = (loadServer req c).nThreads :=
    (hvalues .nThreads).trans (guarded (0 < req.threads) _ _)
  have hpredict : ((ModelRequest.post (some req)).handle o c).llm.srv.nPredict = (loadServer req c).nPredict :=
    (hvalues .nPredict).trans (guarded (0 < req.nPredict) _ _)
  have hport : ((ModelRequest.post (some req)).handle o c).llm.srv.listenPort = c.llm.srv.listenPort :=
    runAll_keeps (fun c => c.llm.srv.listenPort) (fun a c => run_listenPort o c a) _ c
  have hworkers : ((ModelRequest.post (some req)).handle o c).api.rpcWorkers = c.api.rpcWorkers :=
    runAll_keeps (fun c => c.api.rpcWorkers) (fun a c => run_rpcWorkers o c a) _ c
  simp only [loadArgv, copyWorkers, Llmserver.set, Setting.apply, Llmserver.Server.buildArgs, hpath, hmmproj, hctx,
    hgpu, hthreads, hpredict, hport, hworkers]
  rfl

/-- The child that the goroutine of the load launches gets this argument vector. -/
theorem loadArgv_launched (env : Llmserver.Env)
    (hl : CanLaunch env (copyWorkers ((ModelRequest.post (some req)).handle o c)).llm) :
    ∃ child, (Llmserver.start env (copyWorkers ((ModelRequest.post (some req)).handle o c)).llm).1.children.getLast? =
      some child ∧ child.args = loadArgv o req c :=
  ⟨_, Llmserver.start_getLast? hl, rfl⟩

end Load

/-! ## Two histories -/

/-- A POST without an action that sets the three numbers. -/
def numbersRequest : ModelPost := ⟨"/m.gguf", "", "", 0, 5, 8, 64⟩

/-- A startup without configuration, -/
def plainStartup : Controller := startup (fun _ _ _ => none) 0 ⟨"0.0.0.0", 8080, "", 4096, 0, [], true⟩

/-- and the same after `numbersRequest`. -/
def afterNumbers : Controller := (ModelRequest.post (some numbersRequest)).handle outsideUp plainStartup

theorem reachable_plainStartup : Reachable plainStartup := ⟨_, _, _, [], plainStartup, [], _, rfl, rfl, rfl⟩

theorem reachable_afterNumbers : Reachable afterNumbers :=
  ⟨_, _, _, [], plainStartup,
    .arrive (.post (some numbersRequest)) :: List.replicate 6 (.advance outsideUp 0), _, rfl, rfl, rfl⟩

section Histories

variable {o : Outside} {req : ModelPost}

/-- Every number of the request passes its guard. -/
structure ModelPost.Overrides (req : ModelPost) : Prop where
  nGPULayers : req.nGPULayers ≠ 0
  threads : 0 < req.threads
  nPredict : 0 < req.nPredict

/-- What passes its guard leaves nothing of the history. -/
theorem historyFree_of_overrides (hctx : 0 < req.ctxSize) (h : req.Overrides) : HistoryFree o req := by
  intro c c' _ _ hw hp
  rw [loadArgv_eq, loadArgv_eq]
  simp only [loadServer, Llmserver.Server.buildArgs, hctx, h.nGPULayers, h.threads, h.nPredict, hw, hp, if_true, ne_eq,
    not_false_eq_true]

/-- The flag of a number that does not pass its guard tells the two histories apart. -/
theorem overrides_of_historyFree (h : HistoryFree o req) : req.Overrides := by
  have he := h plainStartup afterNumbers reachable_plainStartup reachable_afterNumbers rfl rfl
  rw [loadArgv_eq, loadArgv_eq] at he
  have hflag : ∀ flag, flagValues flag (loadServer req plainStartup).buildArgs =
      flagValues flag (loadServer req afterNumbers).buildArgs := fun flag => congrArg (flagValues flag) he
  refine ⟨fun hn => ?_, ?_, ?_⟩
  · have hgpu : (loadServer req plainStartup).nGPU = -1 ∧ (loadServer req afterNumbers).nGPU = 5 := by
      simp only [loadServer, hn, ne_eq, not_true_eq_false, if_false]
      exact ⟨rfl, rfl⟩
    have := hflag "--n-gpu-layers"
    simp [Llmserver.flagValues_buildArgs, hgpu] at this
  · by_contra hn
    have hthreads : (loadServer req plainStartup).nThreads = 0 ∧ (loadServer req afterNumbers).nThreads = 8 := by
      simp only [loadServer, hn, if_false]
      exact ⟨rfl, rfl⟩
    have := hflag "--threads"
    simp [Llmserver.flagValues_buildArgs, hthreads] at this
  · by_contra hn
    have hpredict : (loadServer req plainStartup).nPredict = -1 ∧ (loadServer req afterNumbers).nPredict = 64 := by
      simp only [loadServer, hn, if_false]
      exact ⟨rfl, rfl⟩
    have := hflag "--n-predict"
    simp [Llmserver.flagValues_buildArgs, hpredict] at this

/-- **The exact condition for a load that does not depend on history**: each of its numbers passes its guard. -/
theorem historyFree_iff (o : Outside) (hfull : req.Full) : HistoryFree o req ↔ req.Overrides :=
  ⟨overrides_of_historyFree, historyFree_of_overrides hfull.ctxSize⟩

end Histories

/-- A load on all layers of a GPU, with 8 threads and 512 tokens. -/
def gpuLoad : ModelPost := ⟨"/m.gguf", "", "load", 4096, 99, 8, 512⟩

theorem historyFree_iff_gpuLoad : HistoryFree outsideUp gpuLoad ↔ gpuLoad.Overrides :=
  historyFree_iff outsideUp ⟨by decide, by decide, by decide, by decide, by decide, by decide⟩

/-- A load with automatic threads keeps the threads of the request before. -/
theorem history_kept : ¬∀ (o : Outside) (req : ModelPost), req.Full → HistoryFree o req := by
  intro h
  have hfree := h outsideUp { gpuLoad with threads := 0 }
    ⟨by decide, by decide, by decide, by decide, by decide, by decide⟩
  have hthreads : (0 : Int) < 0 := (overrides_of_historyFree hfree).threads
  omega

end LaManchaland.Api
