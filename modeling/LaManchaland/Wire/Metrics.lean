import LaManchaland.Monitor.Memory
import LaManchaland.Wire.Message
import LaManchaland.Worker

/-!
# The metrics that the page shows

`handleMetrics` writes what `GetMetrics` returns, and `updateMetrics` fills the panel of the page. The cards of the GPU
are changed only by metrics that have one, and nothing hides them again: a panel is made of the system of one call and
the first GPU of another (`panelOf`), and an answer replaces the first, and the second when it has a GPU
(`receiveMetrics_panelOf`). The memory of the GPU arrives as it is, since the bytes of a row are doubles.
-/

namespace LaManchaland.Wire

open Fields
open JsonText (Value readText)
open GoEncoder (GoNumber GoValue encodeLine received)
open Float64 (IsDouble)
open Ui.ModelSettings (jsNumber)
open Monitor (SystemMetrics GPUMetrics Host Findings getMetrics gpuRows isDouble_memory)

/-! ## The answer of handleMetrics -/

def gpuValue (g : GPUMetrics) : GoValue :=
  goObject [("name", goString g.name), ("memory_total", goUint g.memoryTotal), ("memory_used", goUint g.memoryUsed),
    ("memory_free", goUint g.memoryFree), ("utilization", .num (.int g.utilization)),
    ("temperature", .num (.int g.temperature))]

/-- A slice to which no GPU has been appended is nil. -/
def metricsValue (m : SystemMetrics) : GoValue :=
  goObject [("cpu_load", .num (.float (jsNumber m.cpuLoad))), ("memory_total", goUint m.memoryTotal),
    ("memory_used", goUint m.memoryUsed), ("memory_free", goUint m.memoryFree),
    ("gpus", if m.gpus = [] then .null else .arr (m.gpus.map gpuValue))]

/-- The body of `GET /api/metrics`. -/
def metricsBody (m : SystemMetrics) : List UInt8 := encodeLine (metricsValue m)

/-! ## The panel -/

/-- The fields of a GPU that `updateMetrics` reads. -/
structure PageGPU where
  memoryTotal : JsNum
  memoryUsed : JsNum
  utilization : JsNum

/-- The metrics as `updateMetrics` reads them. -/
structure PageMetrics where
  cpuLoad : JsNum
  memoryTotal : JsNum
  memoryUsed : JsNum
  gpus : List PageGPU

def pageGPU (v : Value) : Option PageGPU := do
  let memoryTotal ← (property "memory_total" v).bind asNumber
  let memoryUsed ← (property "memory_used" v).bind asNumber
  let utilization ← (property "utilization" v).bind asNumber
  return ⟨memoryTotal, memoryUsed, utilization⟩

/-- The GPUs of the metrics; `null` has none. -/
def pageGPUs : Value → Option (List PageGPU)
  | .null => some []
  | .arr items => items.mapM pageGPU
  | _ => none

/-- The metrics of an answer, when they have every field with its type. -/
def pageMetrics (v : Value) : Option PageMetrics := do
  let cpuLoad ← (property "cpu_load" v).bind asNumber
  let memoryTotal ← (property "memory_total" v).bind asNumber
  let memoryUsed ← (property "memory_used" v).bind asNumber
  let gpus ← (property "gpus" v).bind pageGPUs
  return ⟨cpuLoad, memoryTotal, memoryUsed, gpus⟩

/-- How the page writes numbers: in a text, with `toFixed(1)`, and with `formatBytes`. -/
structure JsFormat where
  number : JsNum → String
  toFixed1 : JsNum → String
  formatBytes : JsNum → String

/-- The texts and widths of the panel; the display is the one of both cards of the GPU. -/
structure Panel where
  cpuLoad : String
  cpuBar : String
  ramUsage : String
  ramBar : String
  gpuDisplay : String
  vramUsage : String
  vramBar : String
  gpuUtil : String
  gpuBar : String

/-- The panel as it is served. -/
def servedPanel : Panel := ⟨"0%", "0%", "0 / 0 GB", "0%", "none", "0 / 0 GB", "0%", "0%", "0%"⟩

/-- The operator `> 0`. -/
def isPositive : JsNum → Bool
  | .nan => false
  | .inf negative => !negative
  | .fin v => 0 < v

/-- `(used / total) * 100`, for a total above 0. -/
def percent : JsNum → JsNum → JsNum
  | .fin used, .fin total =>
    match Ui.ModelSettings.Num.ofRat (used / total) with
    | .fin q => .ofRat (q * 100)
    | other => other
  | .fin _, .inf _ => .fin 0
  | .inf negative, .fin _ => .inf negative
  | _, _ => .nan

section Panel

variable (fmt : JsFormat)

/-- `metrics.memory_used || 0`. -/
def orZero (a : JsNum) : JsNum := a.or (.fin 0)

/-- A memory, and the bar of it. -/
def usage (used total : JsNum) : String := fmt.formatBytes used ++ " / " ++ fmt.formatBytes total

def bar (used total : JsNum) : String := if isPositive total then fmt.number (percent used total) ++ "%" else "0%"

/-- The first part of `updateMetrics`. -/
def showSystem (m : PageMetrics) (p : Panel) : Panel :=
  { p with
    cpuLoad := if m.cpuLoad.truthy then fmt.toFixed1 m.cpuLoad ++ "%" else "0%"
    cpuBar := fmt.number (orZero m.cpuLoad) ++ "%"
    ramUsage := usage fmt (orZero m.memoryUsed) (orZero m.memoryTotal)
    ramBar := bar fmt (orZero m.memoryUsed) (orZero m.memoryTotal) }

/-- The second part. -/
def showGPU (gpu : PageGPU) (p : Panel) : Panel :=
  { p with
    gpuDisplay := "flex"
    vramUsage := usage fmt (orZero gpu.memoryUsed) (orZero gpu.memoryTotal)
    vramBar := bar fmt gpu.memoryUsed gpu.memoryTotal
    gpuUtil := fmt.number (orZero gpu.utilization) ++ "%"
    gpuBar := fmt.number (orZero gpu.utilization) ++ "%" }

def updateMetrics (m : PageMetrics) (p : Panel) : Panel :=
  let p := showSystem fmt m p
  match m.gpus with
  | gpu :: _ => showGPU fmt gpu p
  | [] => p

/-- An answer to `GET /api/metrics`; an error leaves the panel. -/
def receiveMetrics (p : Panel) (body : List UInt8) : Panel :=
  ((readText (Utf8.decode body)).bind pageMetrics).elim p fun m => updateMetrics fmt m p

end Panel

/-! ## What is shown -/

section Shown

/-- The system as the page has it: the memory is rounded. -/
def heardGPU (g : GPUMetrics) : PageGPU :=
  ⟨.ofRat g.memoryTotal.toNat, .ofRat g.memoryUsed.toNat, .ofRat g.utilization⟩

def heardMetrics (m : SystemMetrics) : PageMetrics :=
  ⟨.fin m.cpuLoad, .ofRat m.memoryTotal.toNat, .ofRat m.memoryUsed.toNat, m.gpus.map heardGPU⟩

/-- A GPU with its memory as it is. -/
def toldGPU (g : GPUMetrics) : PageGPU := ⟨.fin g.memoryTotal.toNat, .fin g.memoryUsed.toNat, .ofRat g.utilization⟩

theorem pageGPU_received (g : GPUMetrics) : pageGPU (received (gpuValue g)) = some (heardGPU g) := by
  simp [pageGPU, gpuValue, property_received, List.lookup, asNumber_int, goUint, heardGPU]

theorem pageGPUs_received (gpus : List GPUMetrics) :
    pageGPUs (received (if gpus = [] then .null else .arr (gpus.map gpuValue))) = some (gpus.map heardGPU) := by
  cases gpus with
  | nil => rfl
  | cons g gpus =>
    rw [if_neg (List.cons_ne_nil g gpus), received_arr, List.map_map, pageGPUs, List.mapM_map]
    exact mapM_of_forall fun g _ => pageGPU_received g

theorem pageMetrics_received {m : SystemMetrics} (h : IsDouble m.cpuLoad) :
    pageMetrics (received (metricsValue m)) = some (heardMetrics m) := by
  simp [pageMetrics, metricsValue, property_received, List.lookup, asNumber_int, asNumber_float h, pageGPUs_received,
    goUint, heardMetrics]

/-- What an answer does to the panel. -/
theorem receiveMetrics_body (fmt : JsFormat) (p : Panel) {m : SystemMetrics} (h : IsDouble m.cpuLoad) :
    receiveMetrics fmt p (metricsBody m) =
      (m.gpus.head?.elim id fun g => showGPU fmt (heardGPU g)) (showSystem fmt (heardMetrics m) p) := by
  rw [receiveMetrics, metricsBody, GoEncoder.readText_encodeLine, Option.bind_some, pageMetrics_received h,
    Option.elim_some, updateMetrics, heardMetrics]
  cases m.gpus <;> rfl

/-- The memory of a GPU arrives as it is. -/
theorem heardGPU_eq {output : Option String} {g : GPUMetrics} (hg : g ∈ gpuRows output) :
    heardGPU g = toldGPU g := by
  have hmemory := isDouble_memory hg
  have htotal := hmemory g.memoryTotal List.mem_cons_self
  have hused := hmemory g.memoryUsed (List.mem_cons_of_mem _ List.mem_cons_self)
  rw [heardGPU, toldGPU, ofRat_eq_iff.mpr htotal, ofRat_eq_iff.mpr hused]

variable (fmt : JsFormat) (host : Host)

/-- The first GPU of a call. -/
def firstGPU (found : Findings) : Option GPUMetrics := (getMetrics host found).gpus.head?

/-- The panel with the system of one call and with a GPU. -/
def panelOf (system : Option Findings) (gpu : Option GPUMetrics) : Panel :=
  (gpu.elim id fun g => showGPU fmt (toldGPU g))
    (system.elim servedPanel fun found => showSystem fmt (heardMetrics (getMetrics host found)) servedPanel)

/-- **An answer** replaces the system, and the GPU when it has one. -/
theorem receiveMetrics_panelOf {found : Findings} (h : IsDouble (getMetrics host found).cpuLoad)
    (system : Option Findings) (gpu : Option GPUMetrics) :
    receiveMetrics fmt (panelOf fmt host system gpu) (metricsBody (getMetrics host found)) =
      panelOf fmt host (some found) ((firstGPU host found).or gpu) := by
  rw [receiveMetrics_body fmt _ h, firstGPU]
  cases hfirst : (getMetrics host found).gpus.head? with
  | none => cases system <;> cases gpu <;> rfl
  | some g =>
    have hmem : g ∈ gpuRows found.output := by
      have hmem := List.mem_of_head? hfirst
      rw [Monitor.gpus_getMetrics] at hmem
      cases hcuda : host.hasCUDA with
      | false => rw [hcuda] at hmem; cases hmem
      | true => rwa [hcuda] at hmem
    rw [Option.elim_some, heardGPU_eq hmem]
    cases system <;> cases gpu <;> rfl

end Shown

/-- A format that writes bytes in units of 1024. -/
def unitFormat : JsFormat where
  number := Ui.ModelSettings.inputValue
  toFixed1
    | .fin v => Worker.fixed1 v
    | _ => ""
  formatBytes
    | .fin v =>
      if v = 0 then "0 B"
      else
        let i := Nat.log 1024 v.floor.toNat
        Worker.fixed1 (v / 1024 ^ i) ++ " " ++ ["B", "KB", "MB", "GB", "TB"].getD i ""
    | _ => ""

end LaManchaland.Wire
