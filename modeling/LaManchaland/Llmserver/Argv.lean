import LaManchaland.Registry

/-!
# The two copies of the argument vector, and what they encode

`startArgs` and `startNonBlockingArgs` are the statements of `Start` and of `StartNonBlocking` that build the vector,
each copy on its own; both give `buildArgs` (`startArgs_eq`, `startNonBlockingArgs_eq`).

`Options` is what a configuration says to llama-server, absent settings being absent, and `Server.options` the options
of the manager's settings. The vector is their arguments one after the other (`buildArgs_eq`). `readArgs` reads a vector
from left to right as flags with their arities; it gives back the arguments that were written, whatever their values
are (`readArgs_render`), and the arguments determine the options (`Options.args_injective`). So the vector encodes the
options and no value takes the place of a flag: `argv_encodes`.
-/

namespace LaManchaland.Llmserver

/-! ## The statements of the two functions -/

/-- The vector as `Start` builds it. -/
def Server.startArgs (s : Server) : List String :=
  let args := ["--model", s.modelPath, "--host", "127.0.0.1", "--port", itoa s.listenPort,
    "--ctx-size", itoa s.ctxSize, "--log-disable", "--no-display-prompt"]
  let args := if s.mmprojPath ≠ "" then args ++ ["--mmproj", s.mmprojPath] else args
  let args := if s.nGPU ≥ 0 then args ++ ["--n-gpu-layers", itoa s.nGPU] else args
  let args := if s.nThreads > 0 then args ++ ["--threads", itoa s.nThreads] else args
  let args := if s.nPredict > 0 then args ++ ["--n-predict", itoa s.nPredict] else args
  s.rpcWorkers.foldl (fun args rpc => args ++ ["--rpc", rpc]) args

/-- The vector as `StartNonBlocking` builds it. -/
def Server.startNonBlockingArgs (s : Server) : List String :=
  let args := ["--model", s.modelPath, "--host", "127.0.0.1", "--port", itoa s.listenPort,
    "--ctx-size", itoa s.ctxSize, "--log-disable", "--no-display-prompt"]
  let args := if s.mmprojPath ≠ "" then args ++ ["--mmproj", s.mmprojPath] else args
  let args := if s.nGPU ≥ 0 then args ++ ["--n-gpu-layers", itoa s.nGPU] else args
  let args := if s.nThreads > 0 then args ++ ["--threads", itoa s.nThreads] else args
  let args := if s.nPredict > 0 then args ++ ["--n-predict", itoa s.nPredict] else args
  s.rpcWorkers.foldl (fun args rpc => args ++ ["--rpc", rpc]) args

/-- A conditional append is the append of an optional argument. -/
theorem append_optArg (args : List String) (p : Prop) [Decidable p] (flag value : String) :
    (if p then args ++ [flag, value] else args) = args ++ optArg (decide p) flag value := by
  by_cases h : p <;> simp [optArg, h]

/-- The loop over the workers appends one pair for each. -/
theorem foldl_rpc : ∀ (ws args : List String),
    ws.foldl (fun args rpc => args ++ ["--rpc", rpc]) args = args ++ ws.flatMap fun rpc => ["--rpc", rpc]
  | [], args => by simp
  | w :: ws, args => by
    rw [List.foldl_cons, foldl_rpc ws, List.flatMap_cons, List.append_assoc]

theorem startArgs_eq (s : Server) : s.startArgs = s.buildArgs := by
  simp only [Server.startArgs, append_optArg, foldl_rpc]
  rfl

theorem startNonBlockingArgs_eq (s : Server) : s.startNonBlockingArgs = s.buildArgs := by
  simp only [Server.startNonBlockingArgs, append_optArg, foldl_rpc]
  rfl

/-! ## Options -/

/-- What the command line tells llama-server. -/
@[ext] structure Options where
  modelPath : String
  listenPort : Int
  ctxSize : Int
  mmproj : Option String
  nGPU : Option Int
  nThreads : Option Int
  nPredict : Option Int
  workers : List String
  deriving DecidableEq

/-- The options of the manager's settings: an empty projector path, a negative number of layers, and numbers of
threads and tokens that are not positive stand for an absent option. -/
def Server.options (s : Server) : Options where
  modelPath := s.modelPath
  listenPort := s.listenPort
  ctxSize := s.ctxSize
  mmproj := if s.mmprojPath = "" then none else some s.mmprojPath
  nGPU := if s.nGPU < 0 then none else some s.nGPU
  nThreads := if s.nThreads ≤ 0 then none else some s.nThreads
  nPredict := if s.nPredict ≤ 0 then none else some s.nPredict
  workers := s.rpcWorkers

/-- A flag with its value, a switch without one. -/
abbrev Arg := String × Option String

/-- The strings of an argument. -/
def Arg.render : Arg → List String
  | (flag, none) => [flag]
  | (flag, some value) => [flag, value]

/-- The arguments of the options. -/
def Options.args (o : Options) : List Arg :=
  [("--model", some o.modelPath), ("--host", some "127.0.0.1"), ("--port", some (itoa o.listenPort)),
    ("--ctx-size", some (itoa o.ctxSize)), ("--log-disable", none), ("--no-display-prompt", none)]
  ++ o.mmproj.toList.map (fun path => ("--mmproj", some path))
  ++ o.nGPU.toList.map (fun n => ("--n-gpu-layers", some (itoa n)))
  ++ o.nThreads.toList.map (fun n => ("--threads", some (itoa n)))
  ++ o.nPredict.toList.map (fun n => ("--n-predict", some (itoa n)))
  ++ o.workers.map fun rpc => ("--rpc", some rpc)

/-- An optional argument whose condition is the negation of the option's. -/
theorem optArg_eq {p q : Prop} [Decidable p] [Decidable q] (hpq : q ↔ ¬p) {α : Type*} (x : α) (flag : String)
    (enc : α → String) :
    optArg (decide q) flag (enc x)
      = (((if p then none else some x : Option α).toList.map fun x => (flag, some (enc x))).flatMap Arg.render) := by
  by_cases hp : p
  · simp [optArg, hp, hpq]
  · simp [optArg, hp, hpq, Arg.render]

/-- **The vector is written from the options.** -/
theorem buildArgs_eq (s : Server) : s.buildArgs = s.options.args.flatMap Arg.render := by
  have hmmproj := optArg_eq (p := s.mmprojPath = "") Iff.rfl s.mmprojPath "--mmproj" id
  have hgpu := optArg_eq (p := s.nGPU < 0) Int.not_lt.symm s.nGPU "--n-gpu-layers" itoa
  have hthreads := optArg_eq (p := s.nThreads ≤ 0) Int.not_le.symm s.nThreads "--threads" itoa
  have hpredict := optArg_eq (p := s.nPredict ≤ 0) Int.not_le.symm s.nPredict "--n-predict" itoa
  simp only [id_eq] at hmmproj
  have hrpc : ∀ ws : List String, (ws.flatMap fun rpc => ["--rpc", rpc])
      = (ws.map fun rpc => (("--rpc", some rpc) : Arg)).flatMap Arg.render := by
    intro ws
    rw [List.flatMap_map]
    rfl
  rw [Server.buildArgs, hmmproj, hgpu, hthreads, hpredict, hrpc]
  simp only [Options.args, List.flatMap_append]
  rfl

/-! ## Reading a vector -/

/-- A vector read from left to right, every flag with its arity; `none` when the last value is missing. -/
def readArgs : List String → Option (List Arg)
  | [] => some []
  | [f] => if isSwitch f then some [(f, none)] else none
  | f :: v :: rest =>
    if isSwitch f then (readArgs (v :: rest)).map ((f, none) :: ·)
    else (readArgs rest).map ((f, some v) :: ·)

/-- An argument has a value unless its flag is a switch. -/
def Arg.Arity (a : Arg) : Prop := isSwitch a.1 = a.2.isNone

theorem readArgs_switch {f : String} (rest : List String) (hf : isSwitch f = true) :
    readArgs (f :: rest) = (readArgs rest).map ((f, none) :: ·) := by
  cases rest with
  | nil => simp [readArgs, hf]
  | cons v rest => rw [readArgs, hf]; rfl

theorem readArgs_pair {f : String} (v : String) (rest : List String) (hf : isSwitch f = false) :
    readArgs (f :: v :: rest) = (readArgs rest).map ((f, some v) :: ·) := by
  rw [readArgs, hf]
  rfl

/-- **Reading gives back the arguments that were written**, also when a value is a flag or begins with a dash. -/
theorem readArgs_render : ∀ {l : List Arg}, (∀ a ∈ l, a.Arity) → readArgs (l.flatMap Arg.render) = some l
  | [], _ => rfl
  | (f, none) :: l, h => by
    have hf : isSwitch f = true := h (f, none) List.mem_cons_self
    have ih := readArgs_render fun a ha => h a (List.mem_cons_of_mem _ ha)
    rw [List.flatMap_cons, Arg.render, List.singleton_append, readArgs_switch _ hf, ih]
    rfl
  | (f, some v) :: l, h => by
    have hf : isSwitch f = false := h (f, some v) List.mem_cons_self
    have ih := readArgs_render fun a ha => h a (List.mem_cons_of_mem _ ha)
    rw [List.flatMap_cons, Arg.render, List.cons_append, List.singleton_append, readArgs_pair _ _ hf, ih]
    rfl

theorem Options.args_arity (o : Options) : ∀ a ∈ o.args, a.Arity := by
  intro a ha
  simp only [Options.args, List.mem_append, List.mem_map, List.mem_cons, List.not_mem_nil, or_false] at ha
  rcases ha with ((((((rfl | rfl | rfl | rfl | rfl | rfl) | ⟨_, _, rfl⟩) | ⟨_, _, rfl⟩) | ⟨_, _, rfl⟩) | ⟨_, _, rfl⟩)
    | ⟨_, _, rfl⟩) <;> simp [Arg.Arity, isSwitch]

/-! ## The vector determines the options -/

/-- The values of a flag among arguments. -/
def argValues (flag : String) (l : List Arg) : List String := l.filterMap fun a => if a.1 = flag then a.2 else none

@[simp] theorem argValues_append (flag : String) (l l' : List Arg) :
    argValues flag (l ++ l') = argValues flag l ++ argValues flag l' := List.filterMap_append

@[simp] theorem argValues_cons (flag : String) (a : Arg) (l : List Arg) :
    argValues flag (a :: l) = (if a.1 = flag then a.2.toList else []) ++ argValues flag l := by
  obtain ⟨f, v⟩ := a
  by_cases h : f = flag <;> cases v <;> simp [argValues, h]

@[simp] theorem argValues_map {α : Type*} (flag f : String) (enc : α → String) (l : List α) :
    argValues flag (l.map fun x => (f, some (enc x))) = if f = flag then l.map enc else [] := by
  by_cases h : f = flag <;> simp [argValues, List.filterMap_map, h]

theorem Options.args_injective : Function.Injective Options.args := by
  intro o o' h
  have values : ∀ flag, argValues flag o.args = argValues flag o'.args := fun flag => by rw [h]
  have toList_inj : ∀ {x y : Option String}, x.toList = y.toList → x = y := by
    intro x y hxy
    cases x <;> cases y <;> simp_all
  have int_inj : ∀ {x y : Option Int}, x.toList.map itoa = y.toList.map itoa → x = y := by
    intro x y hxy
    have hlist := List.map_injective_iff.mpr itoa_injective hxy
    cases x <;> cases y <;> simp_all
  refine Options.ext ?_ (itoa_injective ?_) (itoa_injective ?_) (toList_inj ?_) (int_inj ?_) (int_inj ?_) (int_inj ?_)
    ?_
  · simpa [Options.args] using values "--model"
  · simpa [Options.args] using values "--port"
  · simpa [Options.args] using values "--ctx-size"
  · simpa [Options.args] using values "--mmproj"
  · simpa [Options.args] using values "--n-gpu-layers"
  · simpa [Options.args] using values "--threads"
  · simpa [Options.args] using values "--n-predict"
  · simpa [Options.args] using values "--rpc"

/-- **The command line encodes the configuration**: the two functions build the same vector, the vector is the same for
two configurations exactly when their options are, and read from left to right it is the arguments of the options. -/
theorem argv_encodes (s s' : Server) :
    s.startArgs = s.startNonBlockingArgs ∧ (s.startArgs = s'.startArgs ↔ s.options = s'.options) ∧
      readArgs s.startArgs = some s.options.args := by
  have hread : ∀ s : Server, readArgs s.buildArgs = some s.options.args := by
    intro s
    rw [buildArgs_eq, readArgs_render s.options.args_arity]
  rw [startArgs_eq, startArgs_eq, startNonBlockingArgs_eq]
  refine ⟨rfl, ⟨fun h => ?_, fun h => ?_⟩, hread s⟩
  · have hargs : some s.options.args = some s'.options.args := by rw [← hread s, ← hread s', h]
    exact Options.args_injective (Option.some.inj hargs)
  · rw [buildArgs_eq, buildArgs_eq, h]

end LaManchaland.Llmserver
