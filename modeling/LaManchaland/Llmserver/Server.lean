import Mathlib.Data.List.Basic

/-!
# The llama-server manager: its settings and its command line

`Server` is `llmserver.Server`; `cancel` and `cmd` hold the number of the child they belong to. `buildArgs` is the
argument vector that `Start` and `StartNonBlocking` build with the same statements. `flagValues` reads an argument
vector from left to right, each flag with its arity; it reads back what `buildArgs` wrote (`flagValues_buildArgs`).
A string with a colon stands after a `--rpc` only as a worker (`pair_buildArgs`).
-/

namespace LaManchaland.Llmserver

/-- `strconv.Itoa`, and `%d` of package fmt. -/
def itoa (n : Int) : String := toString n

structure Server where
  cmd : Option Nat
  cancel : Option Nat
  backendURL : String
  listenPort : Int
  modelPath : String
  mmprojPath : String
  ctxSize : Int
  nGPU : Int
  rpcWorkers : List String
  nThreads : Int
  nPredict : Int
  isRunning : Bool

/-- `New`. -/
def new (listenPort : Int) : Server where
  cmd := none
  cancel := none
  backendURL := "http://127.0.0.1:" ++ itoa listenPort
  listenPort := listenPort
  modelPath := ""
  mmprojPath := ""
  ctxSize := 4096
  nGPU := -1
  rpcWorkers := []
  nThreads := 0
  nPredict := -1
  isRunning := false

/-! ## The setters, each one locked section -/

inductive Setting where
  | setModelPath (path : String)
  | setMMProjPath (path : String)
  | setCtxSize (size : Int)
  | setNGPU (n : Int)
  | setThreads (n : Int)
  | setNPredict (n : Int)
  | setRPCWorkers (workers : List String)
  deriving DecidableEq

def Setting.apply (s : Server) : Setting → Server
  | .setModelPath path => { s with modelPath := path }
  | .setMMProjPath path => { s with mmprojPath := path }
  | .setCtxSize size => { s with ctxSize := size }
  | .setNGPU n => { s with nGPU := n }
  | .setThreads n => { s with nThreads := n }
  | .setNPredict n => { s with nPredict := n }
  | .setRPCWorkers workers => { s with rpcWorkers := workers }

section Setters

variable (s : Server) (f : Setting)

@[simp] theorem Setting.apply_cancel : (f.apply s).cancel = s.cancel := by cases f <;> rfl

@[simp] theorem Setting.apply_isRunning : (f.apply s).isRunning = s.isRunning := by cases f <;> rfl

/-- The settings, without the fields of the process. -/
def Server.settings (s : Server) : Server := { s with cmd := none, cancel := none, isRunning := false }

end Setters

/-- Reading a setting from equal settings. -/
theorem Server.settings_congr {α : Type*} {s s' : Server} (h : s'.settings = s.settings) (f : Server → α)
    (hf : ∀ s : Server, f s.settings = f s) : f s' = f s := by
  rw [← hf s', h, hf s]

/-! ## The argument vector -/

/-- The arguments of a flag that is present under a condition. -/
def optArg (present : Bool) (flag value : String) : List String := if present then [flag, value] else []

/-- The argument vector of `Start` and `StartNonBlocking`. -/
def Server.buildArgs (s : Server) : List String :=
  ["--model", s.modelPath, "--host", "127.0.0.1", "--port", itoa s.listenPort, "--ctx-size", itoa s.ctxSize,
    "--log-disable", "--no-display-prompt"]
  ++ optArg (s.mmprojPath ≠ "") "--mmproj" s.mmprojPath
  ++ optArg (0 ≤ s.nGPU) "--n-gpu-layers" (itoa s.nGPU)
  ++ optArg (0 < s.nThreads) "--threads" (itoa s.nThreads)
  ++ optArg (0 < s.nPredict) "--n-predict" (itoa s.nPredict)
  ++ s.rpcWorkers.flatMap fun rpc => ["--rpc", rpc]

/-- The flags of `buildArgs` that take no value. -/
def isSwitch (flag : String) : Bool := flag = "--log-disable" ∨ flag = "--no-display-prompt"

/-- The values of one flag in an argument vector, read from left to right. -/
def flagValues (flag : String) : List String → List String
  | [] => []
  | [_] => []
  | f :: v :: rest =>
    if isSwitch f then flagValues flag (v :: rest)
    else if f = flag then v :: flagValues flag rest
    else flagValues flag rest

/-- The flag at the head, with its value. -/
theorem flagValues_pair {flag f : String} (v : String) (rest : List String) (hf : isSwitch f = false) :
    flagValues flag (f :: v :: rest) = (if f = flag then [v] else []) ++ flagValues flag rest := by
  rw [flagValues, hf]
  by_cases h : f = flag <;> simp [h]

/-- A switch at the head. -/
theorem flagValues_switch {flag f : String} (rest : List String) (hf : isSwitch f = true) :
    flagValues flag (f :: rest) = flagValues flag rest := by
  cases rest with
  | nil => rfl
  | cons v rest => rw [flagValues, hf]; rfl

theorem flagValues_optArg {flag f : String} (b : Bool) (v : String) (rest : List String) (hf : isSwitch f = false) :
    flagValues flag (optArg b f v ++ rest) = (if b ∧ f = flag then [v] else []) ++ flagValues flag rest := by
  cases b with
  | true => simpa [optArg] using flagValues_pair v rest hf
  | false => simp [optArg]

theorem flagValues_rpc (flag : String) : ∀ ws : List String,
    flagValues flag (ws.flatMap fun rpc => ["--rpc", rpc]) = if "--rpc" = flag then ws else []
  | [] => by simp [flagValues]
  | w :: ws => by
    rw [List.flatMap_cons, List.cons_append, List.cons_append, List.nil_append, flagValues_pair _ _ (by decide),
      flagValues_rpc flag ws]
    split <;> simp

/-- **Reading the argument vector back**: the values of a flag are those that `buildArgs` wrote for it, whatever the
paths and the worker strings are. -/
theorem flagValues_buildArgs (s : Server) (flag : String) :
    flagValues flag s.buildArgs =
      (if "--model" = flag then [s.modelPath] else []) ++ (if "--host" = flag then ["127.0.0.1"] else [])
      ++ (if "--port" = flag then [itoa s.listenPort] else []) ++ (if "--ctx-size" = flag then [itoa s.ctxSize] else [])
      ++ (if s.mmprojPath ≠ "" ∧ "--mmproj" = flag then [s.mmprojPath] else [])
      ++ (if 0 ≤ s.nGPU ∧ "--n-gpu-layers" = flag then [itoa s.nGPU] else [])
      ++ (if 0 < s.nThreads ∧ "--threads" = flag then [itoa s.nThreads] else [])
      ++ (if 0 < s.nPredict ∧ "--n-predict" = flag then [itoa s.nPredict] else [])
      ++ (if "--rpc" = flag then s.rpcWorkers else []) := by
  simp only [Server.buildArgs, List.append_assoc, List.cons_append, List.nil_append]
  rw [flagValues_pair _ _ (by decide), flagValues_pair _ _ (by decide), flagValues_pair _ _ (by decide),
    flagValues_pair _ _ (by decide), flagValues_switch _ (by decide), flagValues_switch _ (by decide),
    flagValues_optArg _ _ _ (by decide), flagValues_optArg _ _ _ (by decide), flagValues_optArg _ _ _ (by decide),
    flagValues_optArg _ _ _ (by decide), flagValues_rpc]
  simp only [decide_eq_true_eq]

theorem flagValues_model (s : Server) : flagValues "--model" s.buildArgs = [s.modelPath] := by
  simp [flagValues_buildArgs]

theorem flagValues_mmproj (s : Server) :
    flagValues "--mmproj" s.buildArgs = if s.mmprojPath = "" then [] else [s.mmprojPath] := by
  simp [flagValues_buildArgs]

theorem flagValues_workers (s : Server) : flagValues "--rpc" s.buildArgs = s.rpcWorkers := by
  simp [flagValues_buildArgs]

/-! ## Adjacent pairs -/

/-- A pair of neighbours in a vector is at its head or later. -/
theorem pair_infix_cons {a b x : String} {l : List String} :
    [a, b] <:+: x :: l ↔ (x = a ∧ l.head? = some b) ∨ [a, b] <:+: l := by
  rw [List.infix_cons_iff, List.cons_prefix_cons, List.singleton_prefix_iff_head?_eq_some, eq_comm (a := a)]

/-- The vector does not begin with a string that has a colon. -/
def PlainHead (l : List String) : Prop := ∀ x, l.head? = some x → ':' ∉ x.toList

theorem plainHead_cons {x : String} {l : List String} (hx : ':' ∉ x.toList) : PlainHead (x :: l) := by
  intro y hy
  rw [List.head?_cons, Option.some.injEq] at hy
  rw [← hy]
  exact hx

theorem plainHead_optArg {b : Bool} {f v : String} {rest : List String} (hf : ':' ∉ f.toList)
    (hr : PlainHead rest) : PlainHead (optArg b f v ++ rest) := by
  cases b with
  | true => exact plainHead_cons hf
  | false => simpa [optArg] using hr

theorem plainHead_rpc (ws : List String) : PlainHead (ws.flatMap fun rpc => ["--rpc", rpc]) := by
  cases ws with
  | nil => intro x hx; simp at hx
  | cons w ws => exact plainHead_cons (by decide)

section Pairs

variable {key : String}

theorem pair_skip {x : String} {rest : List String} (hx : x ≠ "--rpc") :
    ["--rpc", key] <:+: x :: rest ↔ ["--rpc", key] <:+: rest := by
  rw [pair_infix_cons]
  exact ⟨fun h => h.resolve_left fun hh => hx hh.1, .inr⟩

/-- Whatever stands before a string without a colon, it makes no pair with a worker. -/
theorem pair_plain (hk : ':' ∈ key.toList) {x : String} {rest : List String} (hr : PlainHead rest) :
    ["--rpc", key] <:+: x :: rest ↔ ["--rpc", key] <:+: rest := by
  rw [pair_infix_cons]
  exact ⟨fun h => h.resolve_left fun hh => hr key hh.2 hk, .inr⟩

theorem pair_optArg (hk : ':' ∈ key.toList) {b : Bool} {f v : String} {rest : List String} (hf : f ≠ "--rpc")
    (hr : PlainHead rest) : ["--rpc", key] <:+: optArg b f v ++ rest ↔ ["--rpc", key] <:+: rest := by
  cases b with
  | true =>
    have : optArg true f v ++ rest = f :: v :: rest := rfl
    rw [this, pair_skip hf, pair_plain hk hr]
  | false => simp [optArg]

theorem pair_rpc (hk : ':' ∈ key.toList) : ∀ ws : List String,
    ["--rpc", key] <:+: (ws.flatMap fun rpc => ["--rpc", rpc]) ↔ key ∈ ws
  | [] => by simp
  | w :: ws => by
    simp only [List.flatMap_cons, List.cons_append, List.nil_append]
    rw [pair_infix_cons, pair_plain hk (plainHead_rpc ws), pair_rpc hk ws]
    simp [eq_comm]

/-- **The workers of a command line**: a string with a colon follows a `--rpc` exactly when it is a worker, whatever
the paths are. -/
theorem pair_buildArgs (hk : ':' ∈ key.toList) (s : Server) :
    ["--rpc", key] <:+: s.buildArgs ↔ key ∈ s.rpcWorkers := by
  have hn := plainHead_optArg (b := 0 < s.nPredict) (f := "--n-predict") (v := itoa s.nPredict) (by decide)
    (plainHead_rpc s.rpcWorkers)
  have ht := plainHead_optArg (b := 0 < s.nThreads) (f := "--threads") (v := itoa s.nThreads) (by decide) hn
  have hg := plainHead_optArg (b := 0 ≤ s.nGPU) (f := "--n-gpu-layers") (v := itoa s.nGPU) (by decide) ht
  simp only [Server.buildArgs, List.append_assoc, List.cons_append, List.nil_append]
  rw [pair_skip (by decide), pair_plain hk (plainHead_cons (by decide)), pair_skip (by decide), pair_skip (by decide),
    pair_skip (by decide), pair_plain hk (plainHead_cons (by decide)), pair_skip (by decide),
    pair_plain hk (plainHead_cons (by decide)), pair_skip (by decide), pair_skip (by decide),
    pair_optArg hk (by decide) hg, pair_optArg hk (by decide) ht, pair_optArg hk (by decide) hn,
    pair_optArg hk (by decide) (plainHead_rpc _), pair_rpc hk]

end Pairs

end LaManchaland.Llmserver
