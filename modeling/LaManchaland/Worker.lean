import LaManchaland.Config
import LaManchaland.Lib.Float64
import LaManchaland.Monitor

/-!
# The worker

The worker's `main` announces itself by mDNS with text records made of its metadata (`metadata`, `broadcastText`), and
reports its metrics to its own registry (`report`). `Process` is its registry, its announcement and the last
metrics reported.

* `textValue_metadata`: the records carry the metadata, whatever their order and whatever the values contain.
* `survives_iff`: the controller reads the metadata back from an announcement exactly when they are blank.
* `reports_iff`: a run of the worker shows every report in the registry exactly when it has no report; nothing ever
  inserts the worker's own entry.
-/

namespace LaManchaland.Worker

open Runs
open Config (WorkerConfig)
open Llmserver (itoa)
open Monitor (SystemMetrics GPUMetrics)

/-! ## Numbers -/

/-- The number in tenths that `%.1f` of package fmt shows. -/
def tenths (x : Rat) : Int := Float64.roundEven (10 * x)

/-- `%.1f` of package fmt. -/
def fixed1 (x : Rat) : String :=
  (if x < 0 then "-" else "") ++ toString ((tenths x).natAbs / 10) ++ "." ++ toString ((tenths x).natAbs % 10)

/-! ## The announcement -/

/-- The metadata of `main`. -/
def metadata (cfg : WorkerConfig) (metrics : SystemMetrics) : AList fun _ : String => String :=
  let md := AList.insert "port" (itoa cfg.port) (AList.insert "name" cfg.name ∅)
  let md :=
    match metrics.gpus with
    | [] => md
    | gpu :: _ => AList.insert "vram" (toString gpu.memoryTotal.toNat) (AList.insert "gpu" gpu.name md)
  AList.insert "cpu" (fixed1 metrics.cpuLoad) (AList.insert "ram" (toString metrics.memoryTotal.toNat) md)

/-- The text records of `StartWorkerBroadcast`; Go leaves their order open. -/
def broadcastText (md : AList fun _ : String => String) : List String := md.entries.map fun e => e.1 ++ "=" ++ e.2

/-- The key and the value of a record `key=value`: what stands before and after its first `=`. -/
def recordKey (r : String) : List Char := r.toList.takeWhile (· ≠ '=')

def recordValue (r : String) : List Char := (r.toList.dropWhile (· ≠ '=')).tail

/-- The value that the records have for a key. -/
def textValue (key : String) (text : List String) : Option String :=
  text.findSome? fun r => if recordKey r = key.toList then some (String.ofList (recordValue r)) else none

section Records

variable {key value : String}

theorem takeWhile_append_cons {α : Type*} [DecidableEq α] {x : α} {l r : List α} (h : x ∉ l) :
    (l ++ x :: r).takeWhile (· ≠ x) = l := by
  rw [List.takeWhile_append_of_pos fun y hy => by simpa using ne_of_mem_of_not_mem hy h]
  simp

theorem recordKey_record (h : '=' ∉ key.toList) : recordKey (key ++ "=" ++ value) = key.toList := by
  have : (key ++ "=" ++ value).toList = key.toList ++ '=' :: value.toList := by simp
  rw [recordKey, this, takeWhile_append_cons h]

theorem recordValue_record (h : '=' ∉ key.toList) : recordValue (key ++ "=" ++ value) = value.toList := by
  have : (key ++ "=" ++ value).toList = key.toList ++ '=' :: value.toList := by simp
  rw [recordValue, this, List.dropWhile_append_of_pos fun y hy => by simpa using ne_of_mem_of_not_mem hy h]
  simp

/-- The records of a map give back its values, in any order. -/
theorem textValue_broadcast {md : AList fun _ : String => String} (hkeys : ∀ k ∈ md, '=' ∉ k.toList)
    {text : List String} (htext : text.Perm (broadcastText md)) (key : String) :
    textValue key text = md.lookup key := by
  have found : ∀ v, textValue key text = some v → md.lookup key = some v := by
    intro v hv
    obtain ⟨r, hr, hif⟩ := List.exists_of_findSome?_eq_some hv
    obtain ⟨⟨k, w⟩, he, rfl⟩ := List.mem_map.mp (htext.mem_iff.mp hr)
    have hk : '=' ∉ k.toList := hkeys k (List.mem_map.mpr ⟨_, he, rfl⟩)
    simp only [recordKey_record hk, recordValue_record hk, String.ofList_toList] at hif
    split at hif
    · rename_i hkey
      cases hif
      rw [← String.toList_injective hkey]
      exact AList.mem_lookup_iff.mpr he
    · cases hif
  cases hv : textValue key text with
  | some v => exact (found v hv).symm
  | none =>
    refine (Option.eq_none_iff_forall_not_mem.mpr fun v hl => ?_).symm
    have he : ⟨key, v⟩ ∈ md.entries := AList.mem_lookup_iff.mp hl
    have hk : '=' ∉ key.toList := hkeys key (List.mem_map.mpr ⟨_, he, rfl⟩)
    have hnone := List.findSome?_eq_none_iff.mp hv _ (htext.mem_iff.mpr (List.mem_map.mpr ⟨_, he, rfl⟩))
    simp [recordKey_record hk] at hnone

/-- **The announcement carries the metadata**: its records, in any order, have the values of `metadata`. -/
theorem textValue_metadata (cfg : WorkerConfig) (metrics : SystemMetrics) {text : List String}
    (htext : text.Perm (broadcastText (metadata cfg metrics))) (key : String) :
    textValue key text = (metadata cfg metrics).lookup key := by
  have plain : ∀ k ∈ ["cpu", "ram", "vram", "gpu", "port", "name"], '=' ∉ k.toList := by decide
  refine textValue_broadcast (fun k hk => plain k ?_) htext key
  unfold metadata at hk
  split at hk
  · simp only [AList.mem_insert] at hk
    simp only [List.mem_cons]
    tauto
  · simp only [AList.mem_insert] at hk
    simp only [List.mem_cons]
    tauto

end Records

/-- The entry has the values that the metadata encode, and the port of the announcement. -/
structure Survives (metrics : SystemMetrics) (entry : ServiceEntry) (w : WorkerInfo) : Prop where
  gpuName : w.gpuName = (metrics.gpus.head?.map GPUMetrics.name).getD ""
  vramTotal : w.vramTotal = (metrics.gpus.head?.map GPUMetrics.memoryTotal).getD 0
  ramTotal : w.ramTotal = metrics.memoryTotal
  cpuLoad : w.cpuLoad = (tenths metrics.cpuLoad : Rat) / 10
  port : w.port = entry.port

/-- Every value is the one of an absent key: no GPU, or one without name and memory, no RAM, and a load shown as 0. -/
structure Blank (metrics : SystemMetrics) : Prop where
  gpu : ∀ gpu ∈ metrics.gpus.head?, gpu.name = "" ∧ gpu.memoryTotal = 0
  ram : metrics.memoryTotal = 0
  cpu : tenths metrics.cpuLoad = 0

/-- **The exact condition for the metadata to survive the announcement**: they are blank. The decoder reads none of the
records. -/
theorem survives_iff (cfg : WorkerConfig) (metrics : SystemMetrics) (now : Nat) (entry : ServiceEntry) :
    entry.text.Perm (broadcastText (metadata cfg metrics)) → entry.addrIPv4 ≠ [] →
      (Survives metrics entry (parseEntry now entry) ↔ Blank metrics) := by
  intro _ _
  have hcpu : (0 : Rat) = (tenths metrics.cpuLoad : Rat) / 10 ↔ tenths metrics.cpuLoad = 0 := by
    rw [eq_comm, div_eq_zero_iff, Int.cast_eq_zero]
    simp
  constructor
  · intro h
    refine ⟨fun gpu hgpu => ?_, h.ramTotal.symm, hcpu.mp h.cpuLoad⟩
    have hname := h.gpuName
    have hvram := h.vramTotal
    rw [Option.mem_def.mp hgpu] at hname hvram
    exact ⟨hname.symm, hvram.symm⟩
  · intro h
    cases hg : metrics.gpus.head? with
    | none => exact ⟨by rw [hg]; rfl, by rw [hg]; rfl, h.ram.symm, hcpu.mpr h.cpu, rfl⟩
    | some gpu =>
      obtain ⟨hname, hvram⟩ := h.gpu gpu hg
      exact ⟨by rw [hg]; exact hname.symm, by rw [hg]; exact hvram.symm, h.ram.symm, hcpu.mpr h.cpu, rfl⟩

/-- A worker with one GPU. -/
def gpuConfig : WorkerConfig := ⟨"0.0.0.0", 50051, "", "gpu", -1⟩

def gpuMetrics : SystemMetrics :=
  ⟨25, 64000000000, 32000000000, 30000000000, [⟨"RTX 4090", 25757220864, 1258291200, 24498929664, 3, 41⟩]⟩

/-- The announcement of a worker at an address, with its records in the order of the map. -/
def announcement (cfg : WorkerConfig) (metrics : SystemMetrics) : ServiceEntry :=
  ⟨cfg.name, [⟨192, 168, 1, 100⟩], cfg.port, broadcastText (metadata cfg metrics)⟩

theorem survives_iff_gpu :
    Survives gpuMetrics (announcement gpuConfig gpuMetrics) (parseEntry 0 (announcement gpuConfig gpuMetrics)) ↔
      Blank gpuMetrics :=
  survives_iff gpuConfig gpuMetrics 0 (announcement gpuConfig gpuMetrics) (.refl _) (by decide)

/-- The metrics of a worker with a GPU are lost. -/
theorem metadata_lost : ¬∀ (cfg : WorkerConfig) (metrics : SystemMetrics) (now : Nat) (entry : ServiceEntry),
    entry.text.Perm (broadcastText (metadata cfg metrics)) → entry.addrIPv4 ≠ [] →
      Survives metrics entry (parseEntry now entry) := by
  intro h
  have hname : "" = "RTX 4090" :=
    (h gpuConfig gpuMetrics 0 (announcement gpuConfig gpuMetrics) (.refl _) (by decide)).gpuName
  revert hname
  decide

/-! ## The process -/

/-- What the callback of `StartReporting` does to an entry. -/
def reportMetrics (m : SystemMetrics) (w : WorkerInfo) : WorkerInfo :=
  { w with
    gpuName := (m.gpus.head?.map GPUMetrics.name).getD ""
    vramTotal := (m.gpus.head?.map GPUMetrics.memoryTotal).getD 0
    vramUsed := (m.gpus.head?.map GPUMetrics.memoryUsed).getD 0
    ramTotal := m.memoryTotal
    ramUsed := m.memoryUsed
    cpuLoad := m.cpuLoad
    status := "available" }

/-- The callback of `StartReporting`. -/
def report (cfg : WorkerConfig) (now : Nat) (m : SystemMetrics) (d : Discovery) : Discovery :=
  d.updateWorkerMetrics now (endpoint cfg.host cfg.port) (reportMetrics m)

/-- The mDNS server of the process. -/
inductive Broadcast where
  | idle
  | registered (text : List String)
  | failed
  | down
  deriving DecidableEq

structure Process where
  cfg : WorkerConfig
  disc : Discovery
  server : Broadcast
  last : Option SystemMetrics

/-- The process after `NewDiscovery`. -/
def init (cfg : WorkerConfig) : Process := ⟨cfg, newDiscovery, .idle, none⟩

inductive Label where
  | broadcast (metrics : SystemMetrics) (text : List String) (ok : Bool)
  | shutdown
  | report (now : Nat) (metrics : SystemMetrics)

def Label.isReport : Label → Bool
  | .report _ _ => true
  | _ => false

/-- The two sections of `StartWorkerBroadcast` (the registration, which may fail, and the shutdown), and a report. -/
def step (w : Process) : Label → Option Process
  | .broadcast metrics text ok =>
    if w.server = .idle ∧ text.Perm (broadcastText (metadata w.cfg metrics)) then
      some { w with server := if ok then .registered text else .failed }
    else none
  | .shutdown =>
    match w.server with
    | .registered _ => some { w with server := .down }
    | _ => none
  | .report now metrics => some { w with disc := report w.cfg now metrics w.disc, last := some metrics }

/-- The entry of `"Host:Port"` has the values of the report. -/
def Shows (cfg : WorkerConfig) (m : SystemMetrics) (d : Discovery) : Prop :=
  ∃ w, d.workers.lookup (endpoint cfg.host cfg.port) = some w ∧
    w.ramTotal = m.memoryTotal ∧ w.ramUsed = m.memoryUsed ∧ w.cpuLoad = m.cpuLoad ∧
    w.vramTotal = (m.gpus.head?.map GPUMetrics.memoryTotal).getD 0 ∧
    w.vramUsed = (m.gpus.head?.map GPUMetrics.memoryUsed).getD 0 ∧
    w.gpuName = (m.gpus.head?.map GPUMetrics.name).getD ""

/-- The last report, if there is one, is shown. -/
def TakesEffect (w : Process) : Prop := ∀ m, w.last = some m → Shows w.cfg m w.disc

section Step

variable {w w' : Process} {l : Label}

/-- A report without an entry does nothing. -/
theorem report_new (cfg : WorkerConfig) (now : Nat) (m : SystemMetrics) :
    report cfg now m newDiscovery = newDiscovery :=
  rfl

theorem not_shows_new (cfg : WorkerConfig) (m : SystemMetrics) : ¬Shows cfg m newDiscovery := by
  rintro ⟨w, hw, _⟩
  cases hw

/-- **What a step can do.** -/
theorem step_cases (h : step w l = some w') :
    (l.isReport = false ∧ w'.disc = w.disc ∧ w'.last = w.last) ∨
    ∃ now m, l = .report now m ∧ w' = { w with disc := report w.cfg now m w.disc, last := some m } := by
  cases l with
  | broadcast metrics text ok =>
    simp only [step] at h
    split at h
    · cases h; exact .inl ⟨rfl, rfl, rfl⟩
    · cases h
  | shutdown =>
    simp only [step] at h
    split at h
    · cases h; exact .inl ⟨rfl, rfl, rfl⟩
    · cases h
  | report now m => cases h; exact .inr ⟨now, m, rfl, rfl⟩

/-- The registry of a worker stays as `NewDiscovery` makes it. -/
theorem step_disc (hw : w.disc = newDiscovery) (h : step w l = some w') : w'.disc = newDiscovery := by
  rcases step_cases h with ⟨_, hd, _⟩ | ⟨now, m, _, rfl⟩
  · rw [hd, hw]
  · show report w.cfg now m w.disc = newDiscovery
    rw [hw, report_new]

/-- A step keeps the last report shown exactly when it is none. -/
theorem step_takesEffect (hw : w.disc = newDiscovery) (hp : TakesEffect w) (h : step w l = some w') :
    TakesEffect w' ↔ l.isReport = false := by
  rcases step_cases h with ⟨hl, hd, hlast⟩ | ⟨now, m, rfl, rfl⟩
  · refine iff_of_true (fun m hm => ?_) hl
    rw [hlast] at hm
    have hshow := hp m hm
    rw [hw] at hshow
    exact absurd hshow (not_shows_new _ m)
  · refine iff_of_false (fun heff => ?_) (by simp [Label.isReport])
    have hshow : Shows w.cfg m (report w.cfg now m w.disc) := heff m rfl
    rw [hw, report_new] at hshow
    exact not_shows_new _ m hshow

end Step

/-- **The exact condition for the reports to take effect**: the run has none. -/
theorem reports_iff (cfg : WorkerConfig) (ls : List Label) :
    Always step TakesEffect (init cfg) ls ↔ Meets step (fun _ l => l.isReport = false) (init cfg) ls :=
  always_iff_meets (I := fun w => w.disc = newDiscovery) (fun _ _ _ => step_disc) (fun _ _ _ => step_takesEffect) rfl
    (fun m hm => by cases hm) ls

/-- A worker reports once. -/
theorem report_lost : ¬∀ (cfg : WorkerConfig) (ls : List Label), Always step TakesEffect (init cfg) ls := by
  intro h
  have hshow := (h gpuConfig [.report 0 gpuMetrics]).last rfl gpuMetrics rfl
  exact not_shows_new gpuConfig gpuMetrics hshow

end LaManchaland.Worker
