import Mathlib
import LaManchaland.Discovery
import LaManchaland.Lib.Cut
import LaManchaland.Lib.Digits
import LaManchaland.Lib.Keyed

/-!
# The registry as a map on endpoints

The registry flattens a host and a port to the string `"host:port"`. The flattening is injective for all hosts and all
ports, because a decimal has no colon (`endpoint_injective`), so the registry stands for a map on pairs.

`RegistryOp` is an operation of the registry, `RegistryOp.run` its effect in the code, and `RegistryOp.apply` its effect
on a map indexed by pairs, at the pairs that it is `On`. `faithful`: after every sequence of operations the registry is
the map that the sequence leaves, every entry is stored under its own endpoint, and an operation leaves the entries of
other pairs alone.
-/

namespace LaManchaland

open Llmserver (itoa)
open Keyed (OwnKeys ActsAt view)

/-! ## Endpoints -/

theorem itoa_injective : Function.Injective itoa := fun _ _ h => Int.repr_injective h

theorem itoa_negSucc (k : Nat) : (itoa (.negSucc k)).toList = '-' :: (k + 1).repr.toList := by
  show ("-" ++ (k + 1).repr).toList = _
  rw [String.toList_append]
  rfl

/-- The characters of a decimal. -/
theorem itoa_chars (n : Int) : ∀ c ∈ (itoa n).toList, c = '-' ∨ c.isDigit = true := by
  cases n with
  | ofNat k => exact fun c hc => .inr (Digits.isDigit_of_mem_repr hc)
  | negSucc k =>
    rw [itoa_negSucc]
    rintro c (_ | ⟨_, hc⟩)
    · exact .inl rfl
    · exact .inr (Digits.isDigit_of_mem_repr hc)

theorem colon_not_mem_itoa (n : Int) : ':' ∉ (itoa n).toList := by
  intro h
  rcases itoa_chars n _ h with h | h
  · cases h
  · cases h

/-- **Endpoints determine their pair**, whatever colons and digits the host has and whatever the sign of the port. -/
theorem endpoint_injective : Function.Injective fun p : String × Int => endpoint p.1 p.2 := by
  rintro ⟨h, p⟩ ⟨h', p'⟩ he
  have he : h.toList ++ ':' :: (itoa p).toList = h'.toList ++ ':' :: (itoa p').toList := by
    have := congrArg String.toList he
    simpa [endpoint] using this
  obtain ⟨hh, hp⟩ := Cut.append_cons_inj (colon_not_mem_itoa p) (colon_not_mem_itoa p') he
  rw [String.toList_injective hh, itoa_injective (String.toList_injective hp)]

/-! ## The operations -/

/-- A callback of `UpdateWorkerMetrics` that leaves the host and the port unchanged. -/
structure Metrics where
  run : WorkerInfo → WorkerInfo
  host : ∀ w, (run w).host = w.host
  port : ∀ w, (run w).port = w.port

/-- The operations of the registry. -/
inductive RegistryOp where
  | addManualWorker (now : Nat) (host : String) (port : Int) (name : String)
  | scan (now : Nat) (entry : ServiceEntry)
  | updateWorkerMetrics (now : Nat) (key : String) (metrics : Metrics)
  | removeWorker (host : String) (port : Int)

/-- An operation as the code runs it. -/
def RegistryOp.run (d : Discovery) : RegistryOp → Discovery
  | .addManualWorker now host port name => d.addManualWorker now host port name
  | .scan now entry => d.scanInsert (parseEntry now entry)
  | .updateWorkerMetrics now key metrics => d.updateWorkerMetrics now key metrics.run
  | .removeWorker host port => d.removeWorker (endpoint host port)

/-- The registry after a sequence of operations. -/
def registry (ops : List RegistryOp) : Discovery := ops.foldl RegistryOp.run newDiscovery

/-! ## The map on pairs -/

/-- The pairs that an operation is on. -/
def RegistryOp.On : RegistryOp → String × Int → Prop
  | .addManualWorker _ host port _, p => p = (host, port)
  | .scan now entry, p => p = ((parseEntry now entry).host, entry.port)
  | .updateWorkerMetrics _ key _, p => endpoint p.1 p.2 = key
  | .removeWorker host port, p => p = (host, port)

instance : ∀ (op : RegistryOp) (p : String × Int), Decidable (op.On p)
  | .addManualWorker .., _ => inferInstanceAs (Decidable (_ = _))
  | .scan .., _ => inferInstanceAs (Decidable (_ = _))
  | .updateWorkerMetrics .., _ => inferInstanceAs (Decidable (_ = _))
  | .removeWorker .., _ => inferInstanceAs (Decidable (_ = _))

/-- What an operation does to the entry that it is on: an addition keeps an existing entry and marks it as connected, a
discovery replaces it, a report changes an existing entry, a removal forgets it. -/
def RegistryOp.effect : RegistryOp → Option WorkerInfo → Option WorkerInfo
  | .addManualWorker now _ _ _, some w => some { w with lastSeen := now, status := "connected" }
  | .addManualWorker now host port name, none => some (manualWorker now host port name)
  | .scan now entry, _ => some (parseEntry now entry)
  | .updateWorkerMetrics now _ metrics, w => w.map fun w => { metrics.run w with lastSeen := now }
  | .removeWorker _ _, _ => none

/-- An operation on a map indexed by pairs. -/
def RegistryOp.apply (m : String × Int → Option WorkerInfo) (op : RegistryOp) : String × Int → Option WorkerInfo :=
  fun p => if op.On p then op.effect (m p) else m p

/-- The map indexed by pairs after a sequence of operations. -/
def pairMap (ops : List RegistryOp) : String × Int → Option WorkerInfo := ops.foldl RegistryOp.apply fun _ => none

/-- The endpoint of a pair, and the pair of an entry. -/
def pairKey (p : String × Int) : String := endpoint p.1 p.2

def WorkerInfo.pair (w : WorkerInfo) : String × Int := (w.host, w.port)

/-! ## The registry stands for the map -/

/-- The key in the code of the entry that an operation is on. -/
def RegistryOp.key : RegistryOp → String
  | .addManualWorker _ host port _ => endpoint host port
  | .scan now entry => endpoint (parseEntry now entry).host entry.port
  | .updateWorkerMetrics _ key _ => key
  | .removeWorker host port => endpoint host port

section Step

variable {d : Discovery} (op : RegistryOp)

theorem RegistryOp.on_iff (p : String × Int) : op.On p ↔ pairKey p = op.key := by
  have pair : ∀ {q : String × Int}, p = q ↔ pairKey p = pairKey q :=
    ⟨congrArg pairKey, fun h => endpoint_injective h⟩
  cases op with
  | updateWorkerMetrics now key metrics => exact Iff.rfl
  | _ => exact pair

/-- **An operation acts at its key.** -/
theorem RegistryOp.actsAt : ActsAt op.key op.effect d.workers (op.run d).workers := by
  cases op with
  | addManualWorker now host port name =>
    simp only [RegistryOp.run, RegistryOp.key, Discovery.addManualWorker]
    split
    · rename_i w hw
      exact Keyed.actsAt_insert _ (by rw [hw]; rfl)
    · rename_i hw
      exact Keyed.actsAt_insert _ (by rw [hw]; rfl)
  | scan now entry => exact Keyed.actsAt_insert _ rfl
  | updateWorkerMetrics now key metrics =>
    simp only [RegistryOp.run, RegistryOp.key, Discovery.updateWorkerMetrics]
    split
    · rename_i w hw
      exact Keyed.actsAt_insert _ (by rw [hw]; rfl)
    · rename_i hw
      exact Keyed.actsAt_self (by rw [hw]; rfl)
  | removeWorker host port => exact Keyed.actsAt_erase rfl

/-- What an operation stores has the pair that the operation is on. -/
theorem RegistryOp.effect_pair (hd : OwnKeys pairKey WorkerInfo.pair d.workers) {w : WorkerInfo}
    (h : op.effect (d.workers.lookup op.key) = some w) : op.key = pairKey w.pair := by
  cases op with
  | addManualWorker now host port name =>
    cases hw : d.workers.lookup (endpoint host port) with
    | none =>
      rw [RegistryOp.key, hw] at h
      cases h
      rfl
    | some existing =>
      have hkey : endpoint host port = pairKey existing.pair := hd _ _ hw
      rw [RegistryOp.key, hw] at h
      cases h
      exact hkey
  | scan now entry => cases h; rfl
  | updateWorkerMetrics now key metrics =>
    obtain ⟨existing, hw, rfl⟩ := Option.map_eq_some_iff.mp h
    have hpair : WorkerInfo.pair { metrics.run existing with lastSeen := now } = existing.pair := by
      show ((metrics.run existing).host, (metrics.run existing).port) = (existing.host, existing.port)
      rw [metrics.host, metrics.port]
    rw [hpair]
    exact hd _ _ hw
  | removeWorker host port => cases h

theorem ownKeys_run (hd : OwnKeys pairKey WorkerInfo.pair d.workers) :
    OwnKeys pairKey WorkerInfo.pair (op.run d).workers :=
  op.actsAt.ownKeys hd fun _ h => op.effect_pair hd h

/-- The step of the simulation: the view of an operation in the code is the operation on the map. -/
theorem view_run : view pairKey (op.run d).workers = op.apply (view pairKey d.workers) := by
  funext p
  rw [op.actsAt.view]
  simp only [RegistryOp.apply, op.on_iff]

end Step

/-- Every run of operations keeps the entries under their own endpoints. -/
theorem ownKeys_foldl : ∀ (ops : List RegistryOp) {d : Discovery}, OwnKeys pairKey WorkerInfo.pair d.workers →
    OwnKeys pairKey WorkerInfo.pair (ops.foldl RegistryOp.run d).workers
  | [], _, hd => hd
  | op :: ops, _, hd => ownKeys_foldl ops (ownKeys_run op hd)

/-- **The simulation**: the view of a run in the code is the run on the map. -/
theorem view_foldl : ∀ (ops : List RegistryOp) (d : Discovery),
    view pairKey (ops.foldl RegistryOp.run d).workers = ops.foldl RegistryOp.apply (view pairKey d.workers)
  | [], _ => rfl
  | op :: ops, d => by
    rw [List.foldl_cons, List.foldl_cons, view_foldl ops, view_run]

theorem view_registry (ops : List RegistryOp) : view pairKey (registry ops).workers = pairMap ops := by
  rw [registry, view_foldl]
  rfl

/-- The registry after a sequence of operations is a finite map on pairs. -/
structure Faithful (ops : List RegistryOp) : Prop where
  /-- Each key is the endpoint of its own entry. -/
  own : ∀ key w, (registry ops).workers.lookup key = some w → key = w.host ++ ":" ++ itoa w.port
  /-- No two entries have the same host and port. -/
  unique : ∀ key key' w w', (registry ops).workers.lookup key = some w → (registry ops).workers.lookup key' = some w' →
    w.host = w'.host → w.port = w'.port → key = key' ∧ w = w'
  /-- The entry of a pair is the one that the map on pairs has. -/
  refines : ∀ host port, (registry ops).workers.lookup (endpoint host port) = pairMap ops (host, port)
  /-- An operation is on one pair at most. -/
  single : ∀ (op : RegistryOp) (p q : String × Int), op.On p → op.On q → p = q
  /-- An operation leaves the entries of all other pairs alone. -/
  frame : ∀ (op : RegistryOp) host port, ¬op.On (host, port) →
    (op.run (registry ops)).workers.lookup (endpoint host port) = (registry ops).workers.lookup (endpoint host port)
  /-- A removal right after an addition of an absent pair restores the registry. -/
  restore : ∀ now host port name, (registry ops).workers.lookup (endpoint host port) = none →
    RegistryOp.run (RegistryOp.run (registry ops) (.addManualWorker now host port name)) (.removeWorker host port) =
      registry ops

/-- **The registry is a faithful finite map over endpoints**, after every sequence of operations. -/
theorem faithful (ops : List RegistryOp) : Faithful ops := by
  have hown : OwnKeys pairKey WorkerInfo.pair (registry ops).workers := ownKeys_foldl ops Keyed.ownKeys_empty
  refine ⟨hown, fun key key' w w' hw hw' hh hp => ?_, fun host port => ?_, fun op p q hp hq => ?_,
    fun op host port hoff => ?_, fun now host port name habs => ?_⟩
  · have hkey := hown.unique hw hw' (Prod.ext hh hp)
    subst hkey
    rw [hw, Option.some.injEq] at hw'
    exact ⟨rfl, hw'⟩
  · exact congrFun (view_registry ops) (host, port)
  · rw [RegistryOp.on_iff] at hp hq
    exact endpoint_injective (hp.trans hq.symm)
  · have hview := congrFun (view_run op (d := registry ops)) (host, port)
    rw [RegistryOp.apply, if_neg hoff] at hview
    exact hview
  · simp only [RegistryOp.run, Discovery.addManualWorker, habs, Discovery.removeWorker, Keyed.erase_insert _ habs]

end LaManchaland
