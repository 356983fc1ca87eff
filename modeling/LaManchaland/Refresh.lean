import LaManchaland.Registry
import LaManchaland.Lib.Runs

/-!
# Registering a worker again

Both kinds of registration (`RegistryOp.Registers`) store an entry at the same endpoint. A manual addition keeps the
entry that is there; a discovery replaces it, so it keeps one with the announced name and no metrics (`keeps_iff`).
`RegistryOp.refresh` is the abstract operation that never erases, and `refreshStep` runs it beside the registry.

`refreshes_iff`: which registrations keep the entry of any reachable registry, when a whole run never erases, and that
the two kinds commute up to name, status and time.
-/

namespace LaManchaland

open Runs
open Keyed (OwnKeys view)

/-! ## What a registration must keep -/

/-- The operation registers a worker at the pair. -/
def RegistryOp.Registers (p : String × Int) : RegistryOp → Prop
  | .addManualWorker _ host port _ => p = (host, port)
  | .scan now entry => p = ((parseEntry now entry).host, entry.port)
  | .updateWorkerMetrics .. | .removeWorker .. => False

/-- The same worker, but for its status and the time at which it was seen. -/
def WorkerInfo.Keeps (w w' : WorkerInfo) : Prop := w' = { w with status := w'.status, lastSeen := w'.lastSeen }

/-- The fields that a registration leaves alone in every order: all but the name, the status and the time. -/
def WorkerInfo.lasting (w : WorkerInfo) : WorkerInfo := { w with name := "", status := "", lastSeen := 0 }

/-- No metrics are recorded. -/
def WorkerInfo.Unreported (w : WorkerInfo) : Prop :=
  w.vramTotal = 0 ∧ w.vramUsed = 0 ∧ w.ramTotal = 0 ∧ w.ramUsed = 0 ∧ w.gpuName = "" ∧ w.cpuLoad = 0

/-- The operation has nothing to erase: it is no discovery, or one of an unreported worker with the announced name whose
address is its host. -/
def RegistryOp.Harmless (w : WorkerInfo) : RegistryOp → Prop
  | .scan _ entry => entry.inst = w.name ∧ w.ip = w.host ∧ w.Unreported
  | .addManualWorker .. | .updateWorkerMetrics .. | .removeWorker .. => True

instance (w : WorkerInfo) : Decidable w.Unreported := inferInstanceAs (Decidable (_ ∧ _ ∧ _ ∧ _ ∧ _ ∧ _))

instance (w : WorkerInfo) : ∀ op : RegistryOp, Decidable (op.Harmless w)
  | .scan .. => inferInstanceAs (Decidable (_ ∧ _ ∧ _))
  | .addManualWorker .. | .updateWorkerMetrics .. | .removeWorker .. => isTrue trivial

section Entry

variable {w : WorkerInfo} {now : Nat} {entry : ServiceEntry}

/-- A discovery keeps the entry of its worker when there is nothing to erase. -/
theorem discovery_keeps_iff (hh : w.host = (parseEntry now entry).host) (hp : w.port = entry.port) :
    w.Keeps (parseEntry now entry) ↔ RegistryOp.Harmless w (.scan now entry) := by
  constructor
  · intro h
    have hip : w.ip = (parseEntry now entry).ip := (congrArg WorkerInfo.ip h).symm
    exact ⟨congrArg WorkerInfo.name h, hip.trans hh.symm, (congrArg WorkerInfo.vramTotal h).symm,
      (congrArg WorkerInfo.vramUsed h).symm, (congrArg WorkerInfo.ramTotal h).symm,
      (congrArg WorkerInfo.ramUsed h).symm, (congrArg WorkerInfo.gpuName h).symm,
      (congrArg WorkerInfo.cpuLoad h).symm⟩
  · rintro ⟨hname, hip, hvt, hvu, hrt, hru, hgpu, hcpu⟩
    rw [hh] at hip
    simp only [WorkerInfo.Keeps, hh, hp, ← hname, hip, hvt, hvu, hrt, hru, hgpu, hcpu]
    rfl

end Entry

/-- The operation leaves the entry of the pair as it was, but for its status and time. -/
def KeepsEntry (d : Discovery) (op : RegistryOp) (p : String × Int) (w : WorkerInfo) : Prop :=
  ∃ w', (op.run d).workers.lookup (endpoint p.1 p.2) = some w' ∧ w.Keeps w'

/-- The two operations leave the same entries in either order, but for their names, status and times. -/
def Commute (d : Discovery) (a b : RegistryOp) : Prop :=
  ∀ p, (view pairKey (b.run (a.run d)).workers p).map WorkerInfo.lasting =
    (view pairKey (a.run (b.run d)).workers p).map WorkerInfo.lasting

section Step

variable {d : Discovery} {op : RegistryOp} {p : String × Int} {w : WorkerInfo}

theorem RegistryOp.Registers.on (h : op.Registers p) : op.On p := by
  cases op with
  | addManualWorker => exact h
  | scan => exact h
  | updateWorkerMetrics => exact absurd h id
  | removeWorker => exact absurd h id

/-- The entry of a pair after an operation on it. -/
theorem lookup_run (h : op.On p) :
    (op.run d).workers.lookup (endpoint p.1 p.2) = op.effect (d.workers.lookup (endpoint p.1 p.2)) := by
  have hview := congrFun (view_run op (d := d)) p
  rw [RegistryOp.apply, if_pos h] at hview
  exact hview

/-- **Which registrations keep an entry.** -/
theorem keeps_iff (hd : OwnKeys pairKey WorkerInfo.pair d.workers) (h : op.Registers p)
    (hw : d.workers.lookup (endpoint p.1 p.2) = some w) :
    KeepsEntry d op p w ↔ op.Harmless w := by
  rw [KeepsEntry, lookup_run h.on, hw]
  cases op with
  | addManualWorker now host port name => exact iff_of_true ⟨_, rfl, rfl⟩ trivial
  | scan now entry =>
    have hpair : p = w.pair := endpoint_injective (hd _ _ hw)
    have hp : p = ((parseEntry now entry).host, entry.port) := h
    have hpair : w.pair = ((parseEntry now entry).host, entry.port) := hpair.symm.trans hp
    rw [← discovery_keeps_iff (congrArg Prod.fst hpair) (congrArg Prod.snd hpair)]
    simp [RegistryOp.effect]
  | updateWorkerMetrics now key metrics => exact absurd h id
  | removeWorker host port => exact absurd h id

theorem RegistryOp.Registers.on_iff (h : op.Registers p) (q : String × Int) : op.On q ↔ q = p := by
  cases op with
  | addManualWorker now host port name => rw [h]; exact Iff.rfl
  | scan now entry => rw [h]; exact Iff.rfl
  | updateWorkerMetrics => exact absurd h id
  | removeWorker => exact absurd h id

/-- What a registration stores where there was nothing, or where another registration has just stored an entry. -/
theorem effect_effect_lasting {a b : RegistryOp} (ha : a.Registers p) (hb : b.Registers p) (x : Option WorkerInfo) :
    (b.effect (a.effect x)).map WorkerInfo.lasting = (a.effect (b.effect x)).map WorkerInfo.lasting := by
  cases a with
  | updateWorkerMetrics => exact absurd ha id
  | removeWorker => exact absurd ha id
  | addManualWorker now host port name =>
    cases b with
    | updateWorkerMetrics => exact absurd hb id
    | removeWorker => exact absurd hb id
    | addManualWorker now' host' port' name' =>
      obtain ⟨rfl, rfl⟩ := Prod.mk.inj (ha.symm.trans hb)
      cases x <;> rfl
    | scan now' entry' =>
      obtain ⟨rfl, rfl⟩ := Prod.mk.inj (ha.symm.trans hb)
      cases x <;> rfl
  | scan now entry =>
    cases b with
    | updateWorkerMetrics => exact absurd hb id
    | removeWorker => exact absurd hb id
    | addManualWorker now' host' port' name' =>
      obtain ⟨rfl, rfl⟩ := Prod.mk.inj (hb.symm.trans ha)
      cases x <;> rfl
    | scan now' entry' =>
      obtain ⟨hh, hp⟩ := Prod.mk.inj (ha.symm.trans hb)
      have hip : (parseEntry now entry).ip = (parseEntry now' entry').ip := hh
      simp only [RegistryOp.effect, Option.map_some, WorkerInfo.lasting, hh, hip]
      simp only [parseEntry, hp]

/-- The two kinds of registration of one endpoint commute, up to the fields that they set. -/
theorem registrations_commute {a b : RegistryOp} (ha : a.Registers p) (hb : b.Registers p) :
    Commute d a b := by
  intro q
  rw [view_run, view_run, view_run, view_run]
  simp only [RegistryOp.apply, ha.on_iff, hb.on_iff]
  split
  · exact effect_effect_lasting ha hb _
  · rfl

end Step

/-! ## Runs that never erase -/

/-- What an operation does to the entry that it is on when it never erases. -/
def RegistryOp.refresh : RegistryOp → Option WorkerInfo → Option WorkerInfo
  | .scan now _, some w => some { w with status := "available", lastSeen := now }
  | op, x => op.effect x

/-- Such an operation on a map indexed by pairs. -/
def RegistryOp.applyRefresh (m : String × Int → Option WorkerInfo) (op : RegistryOp) :
    String × Int → Option WorkerInfo :=
  fun p => if op.On p then op.refresh (m p) else m p

/-- The registry, and the map that operations which never erase have left. -/
structure Refreshing where
  disc : Discovery
  expected : String × Int → Option WorkerInfo

def refreshInit : Refreshing := ⟨newDiscovery, fun _ => none⟩

def refreshStep (s : Refreshing) (op : RegistryOp) : Option Refreshing :=
  some ⟨op.run s.disc, op.applyRefresh s.expected⟩

/-- The registry has the entries that it should have. -/
def Refreshed (s : Refreshing) : Prop := view pairKey s.disc.workers = s.expected

/-- The operation erases nothing: it is harmless for the entry that it registers again. -/
def ErasesNothing (s : Refreshing) (op : RegistryOp) : Prop :=
  ∀ p w, op.Registers p → s.disc.workers.lookup (endpoint p.1 p.2) = some w → op.Harmless w

theorem refreshed_init : Refreshed refreshInit := rfl

section Runs

variable {s t : Refreshing} {op : RegistryOp}

/-- On the entry of a pair, an operation does what it should when it is harmless there. -/
theorem effect_eq_refresh_iff {p : String × Int} (h : op.On p) {x : Option WorkerInfo}
    (hx : ∀ w, x = some w → w.pair = p) :
    op.effect x = op.refresh x ↔ ∀ w, op.Registers p → x = some w → op.Harmless w := by
  cases op with
  | scan now entry =>
    cases x with
    | none => exact iff_of_true rfl fun w _ hw => by cases hw
    | some w =>
      have hpair : w.pair = ((parseEntry now entry).host, entry.port) := (hx w rfl).trans h
      have hkeeps : w.Keeps (parseEntry now entry) ↔ RegistryOp.Harmless w (.scan now entry) :=
        discovery_keeps_iff (congrArg Prod.fst hpair) (congrArg Prod.snd hpair)
      constructor
      · rintro he w' - hw'
        cases hw'
        exact hkeeps.mp (Option.some.inj he)
      · intro hw
        exact congrArg some (hkeeps.mpr (hw w h rfl))
  | addManualWorker now host port name => exact iff_of_true rfl fun _ _ _ => trivial
  | updateWorkerMetrics now key metrics => exact iff_of_true rfl fun _ _ _ => trivial
  | removeWorker host port => exact iff_of_true rfl fun _ _ _ => trivial

/-- **A step keeps the registry as it should be when it erases nothing.** -/
theorem refreshed_step (hd : OwnKeys pairKey WorkerInfo.pair s.disc.workers) (hs : Refreshed s)
    (h : refreshStep s op = some t) : Refreshed t ↔ ErasesNothing s op := by
  cases h
  have hexp : s.expected = view pairKey s.disc.workers := hs.symm
  have hpair : ∀ p w, view pairKey s.disc.workers p = some w → w.pair = p := fun p w hw =>
    (endpoint_injective (hd _ _ hw)).symm
  unfold Refreshed ErasesNothing
  rw [view_run, hexp, funext_iff]
  refine forall_congr' fun p => ?_
  show (if op.On p then _ else _) = (if op.On p then _ else _) ↔ _
  by_cases hon : op.On p
  · rw [if_pos hon, if_pos hon]
    exact effect_eq_refresh_iff hon (hpair p)
  · rw [if_neg hon, if_neg hon]
    exact iff_of_true rfl fun w hreg => absurd hreg.on hon

end Runs

/-- **When registering again never erases.** In every reachable registry a registration keeps the entry of its endpoint
exactly when it is harmless for it; the registry of a whole run has the entries that it should have exactly when no step
erases; and registrations of one endpoint commute. -/
theorem refreshes_iff (ops : List RegistryOp) :
    (∀ (op : RegistryOp) (p : String × Int) (w : WorkerInfo), op.Registers p →
      (registry ops).workers.lookup (endpoint p.1 p.2) = some w →
      (KeepsEntry (registry ops) op p w ↔ op.Harmless w)) ∧
    (Always refreshStep Refreshed refreshInit ops ↔ Meets refreshStep ErasesNothing refreshInit ops) ∧
    ∀ (a b : RegistryOp) (p : String × Int), a.Registers p → b.Registers p → Commute (registry ops) a b := by
  have hown : OwnKeys pairKey WorkerInfo.pair (registry ops).workers := ownKeys_foldl ops Keyed.ownKeys_empty
  refine ⟨fun op p w h hw => keeps_iff hown h hw, ?_, fun a b p ha hb => registrations_commute ha hb⟩
  refine always_iff_meets (I := fun s => OwnKeys pairKey WorkerInfo.pair s.disc.workers) (fun s op t hs h => ?_)
    (fun s op t hs hr h => refreshed_step hs hr h) Keyed.ownKeys_empty refreshed_init ops
  cases h
  exact ownKeys_run op hs

/-- A report of the memory of a GPU. -/
def gpuReport : Metrics where
  run := fun w => { w with gpuName := "RTX 4090", vramTotal := 24564 }
  host := fun _ => rfl
  port := fun _ => rfl

/-- A worker that was added by hand under its own name, and has reported. -/
def reported : List RegistryOp :=
  [.addManualWorker 0 "10.0.0.5" 50051 "gpu-box", .updateWorkerMetrics 1 "10.0.0.5:50051" gpuReport]

/-- The mDNS announcement of the same worker erases its name and its metrics. -/
theorem discovery_erases : ¬∀ (ops : List RegistryOp) (op : RegistryOp) (p : String × Int) (w : WorkerInfo),
    op.Registers p → (registry ops).workers.lookup (endpoint p.1 p.2) = some w → KeepsEntry (registry ops) op p w := by
  intro h
  obtain ⟨w', hw', hkeeps⟩ := h reported (.scan 2 ⟨"worker-7", [⟨10, 0, 0, 5⟩], 50051, []⟩) ("10.0.0.5", 50051) _
    rfl rfl
  cases hw'
  exact absurd (congrArg WorkerInfo.name hkeeps) (by decide)

end LaManchaland
