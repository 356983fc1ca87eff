import LaManchaland.Lib.Layers
import LaManchaland.Startup

/-!
# The configuration of the two programs

`LoadController` and `LoadWorker` decode a configuration file into a zero record, and fall back on the defaults when
the file cannot be read or does not decode. The two `main` functions let a flag override the file when its value is not
the flag's default.

`precedence_iff`: for each field of each program, when the effective value is that of the flag if it was given, else
that of the file if it has the field, else the default.
-/

namespace LaManchaland.Config

open Layers
open Startup (ControllerConfig)

/-! ## Files -/

/-- What the file named by `-config` has. -/
inductive File (F : Type) where
  | unreadable
  | invalid
  | valid (fields : F)

/-- The fields of `"controller"` in a controller's file; a field that is absent, or `null`, is `none`. -/
structure ControllerFields where
  host : Option String
  port : Option Int
  modelPath : Option String
  contextSize : Option Int
  threads : Option Int
  rpcWorkers : Option (List String)
  autoDiscover : Option Bool

/-- The fields of a worker's file. -/
structure WorkerFields where
  host : Option String
  port : Option Int
  controllerIP : Option String
  name : Option String
  cudaLayers : Option Int

structure WorkerConfig where
  host : String
  port : Int
  controllerIP : String
  name : String
  cudaLayers : Int

/-- `DefaultConfig`. -/
def defaultConfig : ControllerConfig where
  host := "0.0.0.0"
  port := 8080
  modelPath := ""
  contextSize := 4096
  threads := 0
  rpcWorkers := []
  autoDiscover := true

/-- `DefaultWorkerConfig`, on a machine whose `os.Hostname` is `hostname`. -/
def defaultWorkerConfig (hostname : String) : WorkerConfig where
  host := "0.0.0.0"
  port := 50051
  controllerIP := ""
  name := if hostname = "" then "worker" else hostname
  cudaLayers := -1

/-- `json.Unmarshal` into a zero `ControllerConfig`. -/
def ControllerFields.decode (f : ControllerFields) : ControllerConfig where
  host := f.host.getD ""
  port := f.port.getD 0
  modelPath := f.modelPath.getD ""
  contextSize := f.contextSize.getD 0
  threads := f.threads.getD 0
  rpcWorkers := f.rpcWorkers.getD []
  autoDiscover := f.autoDiscover.getD false

/-- `json.Unmarshal` into a zero `WorkerConfig`. -/
def WorkerFields.decode (f : WorkerFields) : WorkerConfig where
  host := f.host.getD ""
  port := f.port.getD 0
  controllerIP := f.controllerIP.getD ""
  name := f.name.getD ""
  cudaLayers := f.cudaLayers.getD 0

def loadController : File ControllerFields → ControllerConfig
  | .unreadable => defaultConfig
  | .invalid => defaultConfig
  | .valid f => f.decode

def loadWorker (hostname : String) : File WorkerFields → WorkerConfig
  | .unreadable => defaultWorkerConfig hostname
  | .invalid => defaultWorkerConfig hostname
  | .valid f => f.decode

/-! ## Flags -/

/-- The flags of the controller that were given explicitly. -/
structure ControllerFlags where
  host : Option String
  port : Option Int
  model : Option String
  ctxSize : Option Int
  threads : Option Int
  autoDiscover : Option Bool

/-- The flags of the worker that were given explicitly. -/
structure WorkerFlags where
  host : Option String
  port : Option Int
  name : Option String
  cudaLayers : Option Int
  rpcHost : Option String
  rpcPort : Option Int

/-- The configuration that the controller's `main` runs with; `cfgPath` is the file of `-config`, if there is one. -/
def controllerMain (flags : ControllerFlags) (cfgPath : Option (File ControllerFields)) : ControllerConfig :=
  let host := flags.host.getD "0.0.0.0"
  let port := flags.port.getD 0
  let modelPath := flags.model.getD ""
  let contextSize := flags.ctxSize.getD 0
  let threads := flags.threads.getD 0
  let autoDiscover := flags.autoDiscover.getD true
  let cfg := cfgPath.elim defaultConfig loadController
  let cfg := if host ≠ "0.0.0.0" then { cfg with host := host } else cfg
  let cfg := if port ≠ 0 then { cfg with port := port } else cfg
  let cfg := if modelPath ≠ "" then { cfg with modelPath := modelPath } else cfg
  let cfg := if contextSize ≠ 0 then { cfg with contextSize := contextSize } else cfg
  let cfg := if threads ≠ 0 then { cfg with threads := threads } else cfg
  if !autoDiscover then { cfg with autoDiscover := false } else cfg

/-- The configuration that the worker's `main` runs with. -/
def workerMain (hostname : String) (flags : WorkerFlags) (cfgPath : Option (File WorkerFields)) : WorkerConfig :=
  let host := flags.host.getD ""
  let port := flags.port.getD 0
  let name := flags.name.getD ""
  let cudaLayers := flags.cudaLayers.getD (-1)
  let rpcHost := flags.rpcHost.getD "127.0.0.1"
  let rpcPort := flags.rpcPort.getD 0
  let cfg := cfgPath.elim (defaultWorkerConfig hostname) (loadWorker hostname)
  let cfg := if host ≠ "" then { cfg with host := host } else cfg
  let cfg := if port ≠ 0 then { cfg with port := port } else cfg
  let cfg := if name ≠ "" then { cfg with name := name } else cfg
  let cfg := if rpcHost ≠ "127.0.0.1" then { cfg with host := rpcHost } else cfg
  let cfg := if rpcPort ≠ 0 then { cfg with port := rpcPort } else cfg
  if cudaLayers ≠ -1 then { cfg with cudaLayers := cudaLayers } else cfg

/-! ## One field -/

section Field

variable {F α : Type}

/-- The value of a field in the file, when the file is valid and has it. -/
def stated (get : F → Option α) : Option (File F) → Option α
  | some (.valid f) => get f
  | _ => none

/-- The file leaves `x`: a valid file states it, or lacks the field and `x` is the zero value; without a valid file it
is the default. -/
def FileLeaves (get : F → Option α) (zero default : α) (file : Option (File F)) (x : α) : Prop :=
  match file with
  | some (.valid f) => get f = some x ∨ (get f = none ∧ zero = x)
  | _ => default = x

/-- A valid file states the field, unless its zero value is the default. -/
def FileStates (get : F → Option α) (zero default : α) (file : Option (File F)) : Prop :=
  match file with
  | some (.valid f) => get f = none → zero = default
  | _ => True

/-- The value of the field after loading. -/
def loaded (get : F → Option α) (zero default : α) : Option (File F) → α
  | some (.valid f) => (get f).getD zero
  | _ => default

variable (get : F → Option α) (zero default : α) (file : Option (File F))

theorem fileLeaves_iff (x : α) : FileLeaves get zero default file x ↔ loaded get zero default file = x := by
  cases file with
  | none => exact Iff.rfl
  | some file =>
    cases file with
    | valid f => cases hf : get f <;> simp [FileLeaves, loaded, hf]
    | _ => exact Iff.rfl

theorem fileStates_iff :
    FileStates get zero default file ↔ loaded get zero default file = (stated get file).getD default := by
  cases file with
  | none => exact iff_of_true trivial rfl
  | some file =>
    cases file with
    | valid f => cases hf : get f <;> simp [FileStates, loaded, stated, hf]
    | _ => exact iff_of_true trivial rfl

/-- One field under its flags. -/
theorem field_iff [DecidableEq α] (fs : List (Flag α)) :
    effective fs (loaded get zero default file) = expected fs ((stated get file).getD default) ↔
      Respected (FileLeaves get zero default file) (FileStates get zero default file) fs :=
  effective_eq_iff (fileLeaves_iff get zero default file) (fileStates_iff get zero default file) fs

end Field

/-! ## All fields -/

/-- The precedence of the controller: each field is that of the flag, else that of the file, else the default. -/
structure ControllerPrecedence (flags : ControllerFlags) (file : Option (File ControllerFields)) : Prop where
  host : (controllerMain flags file).host = flags.host.getD ((stated (·.host) file).getD defaultConfig.host)
  port : (controllerMain flags file).port = flags.port.getD ((stated (·.port) file).getD defaultConfig.port)
  modelPath :
    (controllerMain flags file).modelPath = flags.model.getD ((stated (·.modelPath) file).getD defaultConfig.modelPath)
  contextSize : (controllerMain flags file).contextSize =
    flags.ctxSize.getD ((stated (·.contextSize) file).getD defaultConfig.contextSize)
  threads :
    (controllerMain flags file).threads = flags.threads.getD ((stated (·.threads) file).getD defaultConfig.threads)
  autoDiscover : (controllerMain flags file).autoDiscover =
    flags.autoDiscover.getD ((stated (·.autoDiscover) file).getD defaultConfig.autoDiscover)

/-- The precedence of the worker; `-rpc-host` and `-rpc-port` override `-host` and `-port`. -/
structure WorkerPrecedence (hostname : String) (flags : WorkerFlags) (file : Option (File WorkerFields)) : Prop where
  host : (workerMain hostname flags file).host =
    flags.rpcHost.getD (flags.host.getD ((stated (·.host) file).getD (defaultWorkerConfig hostname).host))
  port : (workerMain hostname flags file).port =
    flags.rpcPort.getD (flags.port.getD ((stated (·.port) file).getD (defaultWorkerConfig hostname).port))
  name : (workerMain hostname flags file).name =
    flags.name.getD ((stated (·.name) file).getD (defaultWorkerConfig hostname).name)
  cudaLayers : (workerMain hostname flags file).cudaLayers =
    flags.cudaLayers.getD ((stated (·.cudaLayers) file).getD (defaultWorkerConfig hostname).cudaLayers)

/-- A field is respected: its flag, whose default is `sentinel`, was given another value, or repeats what the file
leaves; or the flag was not given, and a valid file states the field unless its zero value is the default. -/
def FieldRespected {F α : Type} [DecidableEq α] (get : F → Option α) (zero default : α) (flags : List (Flag α))
    (file : Option (File F)) : Prop :=
  Respected (FileLeaves get zero default file) (FileStates get zero default file) flags

/-- Every field of the controller is respected. -/
structure ControllerRespected (flags : ControllerFlags) (file : Option (File ControllerFields)) : Prop where
  host : FieldRespected (·.host) "" "0.0.0.0" [⟨"0.0.0.0", flags.host⟩] file
  port : FieldRespected (·.port) 0 8080 [⟨0, flags.port⟩] file
  modelPath : FieldRespected (·.modelPath) "" "" [⟨"", flags.model⟩] file
  contextSize : FieldRespected (·.contextSize) 0 4096 [⟨0, flags.ctxSize⟩] file
  threads : FieldRespected (·.threads) 0 0 [⟨0, flags.threads⟩] file
  autoDiscover : FieldRespected (·.autoDiscover) false true [⟨true, flags.autoDiscover⟩] file

/-- Every field of the worker is respected. -/
structure WorkerRespected (hostname : String) (flags : WorkerFlags) (file : Option (File WorkerFields)) : Prop where
  host : FieldRespected (·.host) "" "0.0.0.0" [⟨"127.0.0.1", flags.rpcHost⟩, ⟨"", flags.host⟩] file
  port : FieldRespected (·.port) 0 50051 [⟨0, flags.rpcPort⟩, ⟨0, flags.port⟩] file
  name : FieldRespected (·.name) "" (defaultWorkerConfig hostname).name [⟨"", flags.name⟩] file
  cudaLayers : FieldRespected (·.cudaLayers) 0 (-1) [⟨-1, flags.cudaLayers⟩] file

section Main

variable (hostname : String)

theorem controller_loaded (file : Option (File ControllerFields)) : file.elim defaultConfig loadController =
    { host := loaded (·.host) "" "0.0.0.0" file
      port := loaded (·.port) 0 8080 file
      modelPath := loaded (·.modelPath) "" "" file
      contextSize := loaded (·.contextSize) 0 4096 file
      threads := loaded (·.threads) 0 0 file
      rpcWorkers := loaded (·.rpcWorkers) [] [] file
      autoDiscover := loaded (·.autoDiscover) false true file } := by
  cases file with
  | none => rfl
  | some file => cases file <;> rfl

theorem worker_loaded (file : Option (File WorkerFields)) :
    file.elim (defaultWorkerConfig hostname) (loadWorker hostname) =
    { host := loaded (·.host) "" "0.0.0.0" file
      port := loaded (·.port) 0 50051 file
      controllerIP := loaded (·.controllerIP) "" "" file
      name := loaded (·.name) "" (defaultWorkerConfig hostname).name file
      cudaLayers := loaded (·.cudaLayers) 0 (-1) file } := by
  cases file with
  | none => rfl
  | some file => cases file <;> rfl

section Controller

variable (flags : ControllerFlags) (file : Option (File ControllerFields))

theorem controllerMain_host :
    (controllerMain flags file).host = effective [⟨"0.0.0.0", flags.host⟩] (loaded (·.host) "" "0.0.0.0" file) := by
  simp only [controllerMain, controller_loaded, apply_ite ControllerConfig.host, ite_self]
  rfl

theorem controllerMain_port :
    (controllerMain flags file).port = effective [⟨0, flags.port⟩] (loaded (·.port) 0 8080 file) := by
  simp only [controllerMain, controller_loaded, apply_ite ControllerConfig.port, ite_self]
  rfl

theorem controllerMain_modelPath :
    (controllerMain flags file).modelPath = effective [⟨"", flags.model⟩] (loaded (·.modelPath) "" "" file) := by
  simp only [controllerMain, controller_loaded, apply_ite ControllerConfig.modelPath, ite_self]
  rfl

theorem controllerMain_contextSize : (controllerMain flags file).contextSize =
    effective [⟨0, flags.ctxSize⟩] (loaded (·.contextSize) 0 4096 file) := by
  simp only [controllerMain, controller_loaded, apply_ite ControllerConfig.contextSize, ite_self]
  rfl

theorem controllerMain_threads :
    (controllerMain flags file).threads = effective [⟨0, flags.threads⟩] (loaded (·.threads) 0 0 file) := by
  simp only [controllerMain, controller_loaded, apply_ite ControllerConfig.threads, ite_self]
  rfl

/-- The flag can only turn the discovery off. -/
theorem controllerMain_autoDiscover : (controllerMain flags file).autoDiscover =
    effective [⟨true, flags.autoDiscover⟩] (loaded (·.autoDiscover) false true file) := by
  simp only [controllerMain, controller_loaded, apply_ite ControllerConfig.autoDiscover, ite_self]
  cases h : flags.autoDiscover with
  | none => rfl
  | some b => cases b <;> simp [effective, Flag.apply, Flag.value]

theorem controllerPrecedence_iff : ControllerPrecedence flags file ↔ ControllerRespected flags file := by
  have host := field_iff (·.host) "" "0.0.0.0" file [⟨"0.0.0.0", flags.host⟩]
  have port := field_iff (·.port) 0 8080 file [⟨0, flags.port⟩]
  have modelPath := field_iff (·.modelPath) "" "" file [⟨"", flags.model⟩]
  have contextSize := field_iff (·.contextSize) 0 4096 file [⟨0, flags.ctxSize⟩]
  have threads := field_iff (·.threads) 0 0 file [⟨0, flags.threads⟩]
  have autoDiscover := field_iff (·.autoDiscover) false true file [⟨true, flags.autoDiscover⟩]
  rw [← controllerMain_host] at host
  rw [← controllerMain_port] at port
  rw [← controllerMain_modelPath] at modelPath
  rw [← controllerMain_contextSize] at contextSize
  rw [← controllerMain_threads] at threads
  rw [← controllerMain_autoDiscover] at autoDiscover
  constructor
  · intro h
    exact ⟨host.mp h.host, port.mp h.port, modelPath.mp h.modelPath, contextSize.mp h.contextSize,
      threads.mp h.threads, autoDiscover.mp h.autoDiscover⟩
  · intro h
    exact ⟨host.mpr h.host, port.mpr h.port, modelPath.mpr h.modelPath, contextSize.mpr h.contextSize,
      threads.mpr h.threads, autoDiscover.mpr h.autoDiscover⟩

end Controller

section Worker

variable (flags : WorkerFlags) (file : Option (File WorkerFields))

theorem workerMain_host : (workerMain hostname flags file).host =
    effective [⟨"127.0.0.1", flags.rpcHost⟩, ⟨"", flags.host⟩] (loaded (·.host) "" "0.0.0.0" file) := by
  simp only [workerMain, worker_loaded, apply_ite WorkerConfig.host, ite_self]
  rfl

theorem workerMain_port : (workerMain hostname flags file).port =
    effective [⟨0, flags.rpcPort⟩, ⟨0, flags.port⟩] (loaded (·.port) 0 50051 file) := by
  simp only [workerMain, worker_loaded, apply_ite WorkerConfig.port, ite_self]
  rfl

theorem workerMain_name : (workerMain hostname flags file).name =
    effective [⟨"", flags.name⟩] (loaded (·.name) "" (defaultWorkerConfig hostname).name file) := by
  simp only [workerMain, worker_loaded, apply_ite WorkerConfig.name, ite_self]
  rfl

theorem workerMain_cudaLayers : (workerMain hostname flags file).cudaLayers =
    effective [⟨-1, flags.cudaLayers⟩] (loaded (·.cudaLayers) 0 (-1) file) := by
  simp only [workerMain, worker_loaded, apply_ite WorkerConfig.cudaLayers, ite_self]
  rfl

theorem workerPrecedence_iff : WorkerPrecedence hostname flags file ↔ WorkerRespected hostname flags file := by
  have host := field_iff (·.host) "" "0.0.0.0" file [⟨"127.0.0.1", flags.rpcHost⟩, ⟨"", flags.host⟩]
  have port := field_iff (·.port) 0 50051 file [⟨0, flags.rpcPort⟩, ⟨0, flags.port⟩]
  have name := field_iff (·.name) "" (defaultWorkerConfig hostname).name file [⟨"", flags.name⟩]
  have cudaLayers := field_iff (·.cudaLayers) 0 (-1) file [⟨-1, flags.cudaLayers⟩]
  rw [← workerMain_host hostname] at host
  rw [← workerMain_port hostname] at port
  rw [← workerMain_name] at name
  rw [← workerMain_cudaLayers hostname] at cudaLayers
  constructor
  · intro h
    exact ⟨host.mp h.host, port.mp h.port, name.mp h.name, cudaLayers.mp h.cudaLayers⟩
  · intro h
    exact ⟨host.mpr h.host, port.mpr h.port, name.mpr h.name, cudaLayers.mpr h.cudaLayers⟩

end Worker

/-- **The exact condition for the precedence** of flags, file and defaults in both programs: every field is
respected. -/
theorem precedence_iff (controller : ControllerFlags) (controllerFile : Option (File ControllerFields))
    (worker : WorkerFlags) (workerFile : Option (File WorkerFields)) :
    (ControllerPrecedence controller controllerFile ↔ ControllerRespected controller controllerFile) ∧
      (WorkerPrecedence hostname worker workerFile ↔ WorkerRespected hostname worker workerFile) :=
  ⟨controllerPrecedence_iff controller controllerFile, workerPrecedence_iff hostname worker workerFile⟩

end Main

/-- No flag is given. -/
def noFlags : ControllerFlags := ⟨none, none, none, none, none, none⟩

/-- A file that only names a model. -/
def modelFile : File ControllerFields := .valid ⟨none, none, some "/m.gguf", none, none, none, none⟩

/-- A file without a port leaves port 0 and not 8080. -/
theorem precedence_broken : ¬∀ (hostname : String) (controller : ControllerFlags)
    (controllerFile : Option (File ControllerFields)) (worker : WorkerFlags) (workerFile : Option (File WorkerFields)),
    ControllerPrecedence controller controllerFile ∧ WorkerPrecedence hostname worker workerFile := by
  intro h
  have hport : (0 : Int) = 8080 := (h "" noFlags (some modelFile) ⟨none, none, none, none, none, none⟩ none).1.port
  omega

end LaManchaland.Config
