import LaManchaland.Lib.Critical
import LaManchaland.Registry

/-!
# The registry in memory

The map of the registry holds pointers to records. `AddManualWorker` and `UpdateWorkerMetrics` write to the record
that the map points to, and `GetWorkers` gives out the pointers, which `respondJSON` and `broadcastUpdate` read after
the lock is gone. `Memory` is the heap of records with the map, and `code` the statements of each operation between
its lock and its unlock.

* `Memory.Shows`: the registry that the memory stands for. An operation that runs by itself does to it what the
  operation on values does (`shows_atomic`), because no two endpoints share a record (`Memory.Sound`).
* `registry_linearizable`: threads that interleave statement by statement leave the registry of the operations in the
  order in which they took the lock.
* `getWorkers_snapshot`: whenever the answer of a `GetWorkers` is read, it has the endpoints that the registry had at
  one moment of the call, and the records of that moment but for their status, the time and reported metrics.
-/

namespace LaManchaland.Pointers

open Runs
open Critical (Section runAll atomicStep entries Stands Quiet Relates)
open Llmserver (itoa)

/-- The records by their address, and the map of the registry. -/
structure Memory where
  heap : List WorkerInfo
  workers : AList fun _ : String => Nat

/-- The variables of a thread: the record that it has found or made, and the list of `GetWorkers`. -/
structure Own where
  record : Option Nat
  result : List Nat

namespace Memory

/-- A new record, whose address is returned. -/
def alloc (w : WorkerInfo) (m : Memory) : Memory × Nat := ({ m with heap := m.heap ++ [w] }, m.heap.length)

/-- A write to a record. -/
def write (p : Nat) (f : WorkerInfo → WorkerInfo) (m : Memory) : Memory := { m with heap := m.heap.modify p f }

/-- `d.workers[key] = p`. -/
def store (key : String) (p : Nat) (m : Memory) : Memory := { m with workers := m.workers.insert key p }

/-- What the map and the heap say of a key. -/
def view (m : Memory) (key : String) : Option WorkerInfo := (m.workers.lookup key).bind fun p => m.heap[p]?

end Memory

/-! ## The operations -/

/-- `GetWorkers` ranges over the map in an order that Go leaves open. -/
inductive Op where
  | registry (op : RegistryOp)
  | getWorkers (order : List String → List String) (perm : ∀ keys, (order keys).Perm keys)

abbrev Statement := Memory × Own → Memory × Own

/-- `existing, ok := d.workers[key]`. -/
def find (key : String) : Statement := fun (m, own) => (m, { own with record := m.workers.lookup key })

/-- A write to the record that was found. -/
def onRecord (f : WorkerInfo → WorkerInfo) : Statement := fun (m, own) =>
  match own.record with
  | some p => (m.write p f, own)
  | none => (m, own)

/-- The statements of an operation under the lock; the record of `parseEntry` is made right before. -/
def statements : RegistryOp → List Statement
  | .addManualWorker now host port name =>
    [find (endpoint host port), onRecord fun w => { w with lastSeen := now }, fun (m, own) =>
      match own.record with
      | some p => (m.write p fun w => { w with status := "connected" }, own)
      | none =>
        let (m, p) := m.alloc (manualWorker now host port name)
        (m.store (endpoint host port) p, own)]
  | .scan now entry =>
    [fun (m, own) =>
      let (m, p) := m.alloc (parseEntry now entry)
      (m, { own with record := some p }), fun (m, own) =>
      match own.record with
      | some p => (m.store ((parseEntry now entry).host ++ ":" ++ itoa (parseEntry now entry).port) p, own)
      | none => (m, own)]
  | .updateWorkerMetrics now key metrics =>
    [find key, onRecord metrics.run, onRecord fun w => { w with lastSeen := now }]
  | .removeWorker host port => [fun (m, own) => ({ m with workers := m.workers.erase (endpoint host port) }, own)]

/-- An iteration of `GetWorkers`. -/
def appendWorker (key : String) : Statement := fun (m, own) =>
  (m, { own with result := own.result ++ (m.workers.lookup key).toList })

/-- The loop of `GetWorkers`. -/
def rangeOver (keys : List String) : List Statement :=
  (fun (m, own) => (m, { own with result := [] })) :: keys.map appendWorker

theorem rangeOver_reads (keys : List String) : ∀ f ∈ rangeOver keys, ∀ x, (f x).1 = x.1 := by
  intro f hf x
  rcases List.mem_cons.mp hf with rfl | hf
  · rfl
  · obtain ⟨key, _, rfl⟩ := List.mem_map.mp hf
    rfl

/-- The section of an operation. -/
def code : Op → Memory → Section Memory Own
  | .registry op, _ => ⟨true, statements op, fun h => by cases h⟩
  | .getWorkers order _, m => ⟨false, rangeOver (order m.workers.keys), fun _ => rangeOver_reads _⟩

/-- `NewDiscovery`, in memory. -/
def emptyMemory : Memory := ⟨[], ∅⟩

/-! ## The registry that the memory stands for -/

/-- Every address is one of the heap, and no two keys share a record. -/
structure Memory.Sound (m : Memory) : Prop where
  inHeap : ∀ key p, m.workers.lookup key = some p → p < m.heap.length
  own : ∀ key key' p, m.workers.lookup key = some p → m.workers.lookup key' = some p → key = key'

/-- The memory stands for the registry. -/
def Memory.Shows (m : Memory) (d : Discovery) : Prop := ∀ key, m.view key = d.workers.lookup key

section View

variable {m : Memory} {key : String} {p : Nat} {f : WorkerInfo → WorkerInfo} {w : WorkerInfo}

theorem Memory.Sound.empty : emptyMemory.Sound := ⟨fun _ _ h => (by cases h), fun _ _ _ h => (by cases h)⟩

theorem Memory.Shows.empty : emptyMemory.Shows newDiscovery := fun _ => rfl

theorem Memory.Sound.write (h : m.Sound) : (m.write p f).Sound :=
  ⟨fun key q hq => by rw [Memory.write, List.length_modify]; exact h.inHeap key q hq, h.own⟩

/-- A write to the record of a key changes the entry of that key. -/
theorem Memory.Sound.view_write (h : m.Sound) (hp : m.workers.lookup key = some p) (key' : String) :
    (m.write p f).view key' = if key' = key then (m.view key').map f else m.view key' := by
  simp only [Memory.view, Memory.write]
  cases hq : m.workers.lookup key' with
  | none => simp
  | some q =>
    simp only [Option.bind_some, List.getElem?_modify]
    by_cases hk : key' = key
    · subst hk
      rw [hp, Option.some.injEq] at hq
      subst hq
      simp
    · have hne : p ≠ q := by
        rintro rfl
        exact hk (h.own key' key p hq hp)
      simp [hne, hk]

theorem Memory.Sound.lookup_lt (h : m.Sound) {key' : String} (hp : m.workers.lookup key' = some p) :
    m.heap.length ≠ p := Nat.ne_of_gt (h.inHeap key' p hp)

/-- A new record under a key. -/
theorem Memory.Sound.insert (h : m.Sound) : ((m.alloc w).1.store key (m.alloc w).2).Sound := by
  refine ⟨fun key' q hq => ?_, fun key' key'' q hq hq' => ?_⟩
  · simp only [Memory.alloc, Memory.store] at hq ⊢
    rw [List.length_append, List.length_singleton]
    by_cases hk : key' = key
    · subst hk
      rw [AList.lookup_insert, Option.some.injEq] at hq
      omega
    · rw [AList.lookup_insert_ne hk] at hq
      have := h.inHeap key' q hq
      omega
  · simp only [Memory.alloc, Memory.store] at hq hq'
    by_cases hk : key' = key <;> by_cases hk' : key'' = key
    · rw [hk, hk']
    · rw [hk, AList.lookup_insert, Option.some.injEq] at hq
      rw [AList.lookup_insert_ne hk'] at hq'
      exact absurd hq (h.lookup_lt hq')
    · rw [hk', AList.lookup_insert, Option.some.injEq] at hq'
      rw [AList.lookup_insert_ne hk] at hq
      exact absurd hq' (h.lookup_lt hq)
    · rw [AList.lookup_insert_ne hk] at hq
      rw [AList.lookup_insert_ne hk'] at hq'
      exact h.own key' key'' q hq hq'

theorem Memory.Sound.view_insert (h : m.Sound) (key' : String) :
    ((m.alloc w).1.store key (m.alloc w).2).view key' = if key' = key then some w else m.view key' := by
  simp only [Memory.view, Memory.alloc, Memory.store]
  by_cases hk : key' = key
  · subst hk
    rw [AList.lookup_insert, if_pos rfl, Option.bind_some, List.getElem?_concat_length]
  · rw [AList.lookup_insert_ne hk, if_neg hk]
    cases hq : m.workers.lookup key' with
    | none => rfl
    | some q =>
      rw [Option.bind_some, Option.bind_some, List.getElem?_append_left (h.inHeap key' q hq)]

end View

/-! ## An operation by itself -/

section Atomic

variable {m : Memory}

/-- What an operation leaves when it runs by itself. -/
def after (op : RegistryOp) (m : Memory) (own : Own) : Memory := (runAll (statements op) (m, own)).1

/-- **An operation by itself** changes the entry of its key as the operation on values does. -/
theorem view_after (h : m.Sound) (op : RegistryOp) (own : Own) : (after op m own).Sound ∧
    ∀ key, (after op m own).view key = if key = op.key then op.effect (m.view key) else m.view key := by
  have found : ∀ {key p}, m.workers.lookup key = some p → ∃ w, m.view key = some w := by
    intro key p hp
    rw [Memory.view, hp, Option.bind_some, List.getElem?_eq_getElem (h.inHeap key p hp)]
    exact ⟨_, rfl⟩
  cases op with
  | addManualWorker now host port name =>
    simp only [after, statements, runAll, find, onRecord, RegistryOp.key]
    cases hp : m.workers.lookup (endpoint host port) with
    | some p =>
      refine ⟨h.write.write, fun key => ?_⟩
      obtain ⟨w, hw⟩ := found hp
      rw [h.write.view_write hp, h.view_write hp]
      by_cases hk : key = endpoint host port
      · subst hk
        simp [hw, RegistryOp.effect]
      · simp [hk]
    | none =>
      refine ⟨h.insert, fun key => ?_⟩
      rw [h.view_insert]
      by_cases hk : key = endpoint host port
      · subst hk
        simp [Memory.view, hp, RegistryOp.effect]
      · simp [hk]
  | scan now entry =>
    refine ⟨h.insert, fun key => ?_⟩
    exact h.view_insert key
  | updateWorkerMetrics now key metrics =>
    simp only [after, statements, runAll, find, onRecord, RegistryOp.key]
    cases hp : m.workers.lookup key with
    | some p =>
      refine ⟨h.write.write, fun key' => ?_⟩
      obtain ⟨w, hw⟩ := found hp
      rw [h.write.view_write hp, h.view_write hp]
      by_cases hk : key' = key
      · subst hk
        simp [hw, RegistryOp.effect]
      · simp [hk]
    | none =>
      refine ⟨h, fun key' => ?_⟩
      by_cases hk : key' = key
      · subst hk
        simp [Memory.view, hp, RegistryOp.effect]
      · simp [hk]
  | removeWorker host port =>
    have hlookup : ∀ key, (m.workers.erase (endpoint host port)).lookup key =
        if key = endpoint host port then none else m.workers.lookup key := by
      intro key
      split
      · rename_i hk
        rw [hk, AList.lookup_erase]
      · rename_i hk
        exact AList.lookup_erase_ne hk
    have kept : ∀ {key p}, (m.workers.erase (endpoint host port)).lookup key = some p →
        m.workers.lookup key = some p := by
      intro key p hp
      rw [hlookup] at hp
      split at hp
      · cases hp
      · exact hp
    refine ⟨⟨fun key p hp => h.inHeap key p (kept hp), fun key key' p hp hp' => h.own key key' p (kept hp) (kept hp')⟩,
      fun key => ?_⟩
    show ((m.workers.erase (endpoint host port)).lookup key).bind (fun p => m.heap[p]?) =
      if key = endpoint host port then none else m.view key
    rw [hlookup]
    by_cases hk : key = endpoint host port
    · rw [if_pos hk, if_pos hk]
      rfl
    · rw [if_neg hk, if_neg hk]
      rfl

/-- An operation in memory and on values. -/
theorem shows_after (h : m.Sound) {d : Discovery} (hd : m.Shows d) (op : RegistryOp) (own : Own) :
    (after op m own).Sound ∧ (after op m own).Shows (op.run d) := by
  obtain ⟨hsound, hview⟩ := view_after h op own
  refine ⟨hsound, fun key => ?_⟩
  rw [hview]
  split
  · rename_i hk
    rw [hk, hd, op.actsAt.here]
  · rename_i hk
    rw [hd, op.actsAt.frame key hk]

end Atomic

/-! ## Runs -/

/-- The operation that an entry runs on the registry. -/
def Op.onRegistry : Op → Option RegistryOp
  | .registry op => some op
  | .getWorkers _ _ => none

/-- The operations on the registry, in the order in which they take the lock. -/
def operations (es : List (Nat × Op)) : List RegistryOp := es.filterMap fun e => e.2.onRegistry

/-- `GetWorkers` leaves the memory. -/
theorem getWorkers_shared (order : List String → List String) (perm : ∀ keys, (order keys).Perm keys) (m : Memory)
    (own : Own) : (runAll (code (.getWorkers order perm) m).body (m, own)).1 = m :=
  Critical.runAll_reads (rangeOver_reads _) _

/-- **Runs of whole operations** in memory and on values. -/
theorem shows_atomic {es : List (Nat × Op)} {x y : Memory × List Own} (hx : x.1.Sound) {d : Discovery}
    (hd : x.1.Shows d) (hs : exec (atomicStep code) x es = some y) :
    y.1.Sound ∧ y.1.Shows ((operations es).foldl RegistryOp.run d) := by
  induction es generalizing x d with
  | nil =>
    cases hs
    exact ⟨hx, hd⟩
  | cons e es ih =>
    obtain ⟨z, hz, hs⟩ := exec_cons_some hs
    obtain ⟨j, o⟩ := e
    obtain ⟨own, _, rfl⟩ := Option.map_eq_some_iff.mp hz
    cases o with
    | registry op =>
      obtain ⟨hsound, hshows⟩ := shows_after hx hd op own
      exact ih hsound hshows hs
    | getWorkers order perm =>
      have hsame := getWorkers_shared order perm x.1 own
      refine ih ?_ ?_ hs
      · rw [hsame]
        exact hx
      · rw [hsame]
        exact hd

/-- **The registry is linearizable**: however threads interleave their statements, between sections the memory stands
for the registry of the operations in the order in which they took the lock. -/
theorem registry_linearizable (owns : List Own) (ls : List (Critical.Label Op)) (t : Critical.State Memory Own)
    (hrun : exec (Critical.step code) (Critical.start emptyMemory owns) ls = some t) (hq : Quiet t) :
    t.shared.Sound ∧ t.shared.Shows (registry (operations (entries ls))) := by
  obtain ⟨y, hy, hstands⟩ := Critical.exec_stands (Critical.stands_start emptyMemory owns) hrun
  have hend := shows_atomic Memory.Sound.empty Memory.Shows.empty hy
  rw [hstands.quiet hq] at hend
  exact hend

/-- A worker is added, two readers overlap, and the worker is removed. -/
def overlap : List (Critical.Label Op) :=
  [.enter 0 (.registry (.addManualWorker 5 "10.0.0.2" 50052 "gpu")), .statement 0, .statement 0, .statement 0, .leave 0,
    .enter 1 (.getWorkers id .refl), .statement 1, .enter 0 (.getWorkers id .refl), .statement 1, .statement 0,
    .leave 1, .statement 0, .leave 0, .enter 0 (.registry (.removeWorker "10.0.0.2" 50052)), .statement 0, .leave 0]

/-- Both readers have the record, which the map has no longer. -/
def overlapEnd : Critical.State Memory Own :=
  ⟨⟨[manualWorker 5 "10.0.0.2" 50052 "gpu"], ∅⟩, [⟨⟨none, [0]⟩, none⟩, ⟨⟨none, [0]⟩, none⟩]⟩

theorem registry_linearizable_overlap :
    exec (Critical.step code) (Critical.start emptyMemory [⟨none, []⟩, ⟨none, []⟩]) overlap = some overlapEnd ∧
      overlapEnd.shared.Sound ∧ overlapEnd.shared.Shows (registry (operations (entries overlap))) :=
  ⟨rfl, registry_linearizable [⟨none, []⟩, ⟨none, []⟩] overlap overlapEnd rfl
    (List.forall_mem_cons.mpr ⟨rfl, List.forall_mem_singleton.mpr rfl⟩)⟩

/-! ## What becomes of a record -/

section Kept

variable {K : WorkerInfo → WorkerInfo → Prop}

/-- Every record is still at its address, and is what `K` says it may become. -/
def Grows (K : WorkerInfo → WorkerInfo → Prop) (m m' : Memory) : Prop :=
  ∀ (p : Nat) (w : WorkerInfo), m.heap[p]? = some w → ∃ w', m'.heap[p]? = some w' ∧ K w w'

/-- A relation that the writes of `AddManualWorker` and the time of a report keep to. -/
structure Tolerant (K : WorkerInfo → WorkerInfo → Prop) : Prop where
  refl : ∀ w, K w w
  trans : ∀ w w' w'', K w w' → K w' w'' → K w w''
  seen : ∀ w now, K w { w with lastSeen := now }
  connected : ∀ w, K w { w with status := "connected" }

/-- The callback of a report keeps to the relation. -/
def Op.Within (K : WorkerInfo → WorkerInfo → Prop) : Op → Prop
  | .registry (.updateWorkerMetrics _ _ metrics) => ∀ w, K w (metrics.run w)
  | _ => True

theorem Grows.refl (hK : Tolerant K) (m : Memory) : Grows K m m := fun _ w hw => ⟨w, hw, hK.refl w⟩

theorem Grows.trans (hK : Tolerant K) (m m' m'' : Memory) (h : Grows K m m') (h' : Grows K m' m'') :
    Grows K m m'' := by
  intro p w hw
  obtain ⟨w', hw', hk⟩ := h p w hw
  obtain ⟨w'', hw'', hk'⟩ := h' p w' hw'
  exact ⟨w'', hw'', hK.trans w w' w'' hk hk'⟩

theorem grows_write (hK : Tolerant K) {f : WorkerInfo → WorkerInfo} (hf : ∀ w, K w (f w)) (m : Memory) (p : Nat) :
    Grows K m (m.write p f) := by
  intro q w hw
  rw [Memory.write, List.getElem?_modify, hw]
  by_cases hpq : p = q
  · exact ⟨f w, by simp [hpq], hf w⟩
  · exact ⟨w, by simp [hpq], hK.refl w⟩

theorem grows_alloc (hK : Tolerant K) (w : WorkerInfo) (m : Memory) : Grows K m (m.alloc w).1 := by
  intro p v hv
  have hlt := (List.getElem?_eq_some_iff.mp hv).1
  exact ⟨v, (List.getElem?_append_left hlt).trans hv, hK.refl v⟩

theorem grows_onRecord (hK : Tolerant K) {f : WorkerInfo → WorkerInfo} (hf : ∀ w, K w (f w)) (x : Memory × Own) :
    Grows K x.1 (onRecord f x).1 := by
  rw [onRecord]
  split
  · exact grows_write hK hf x.1 _
  · exact Grows.refl hK x.1

/-- Every statement of an operation keeps the records. -/
theorem relates_statements (hK : Tolerant K) (op : RegistryOp) (h : (Op.registry op).Within K) :
    Relates (Grows K) (statements op) := by
  cases op with
  | addManualWorker now host port name =>
    refine List.forall_mem_cons.mpr ⟨fun x => Grows.refl hK x.1, List.forall_mem_cons.mpr
      ⟨grows_onRecord hK fun w => hK.seen w now, List.forall_mem_singleton.mpr fun x => ?_⟩⟩
    dsimp only
    split
    · exact grows_write hK hK.connected x.1 _
    · exact grows_alloc hK _ x.1
  | scan now entry =>
    refine List.forall_mem_cons.mpr ⟨fun x => grows_alloc hK _ x.1, List.forall_mem_singleton.mpr fun x => ?_⟩
    dsimp only
    split
    · exact Grows.refl hK x.1
    · exact Grows.refl hK x.1
  | updateWorkerMetrics now key metrics =>
    exact List.forall_mem_cons.mpr ⟨fun x => Grows.refl hK x.1, List.forall_mem_cons.mpr
      ⟨grows_onRecord hK h, List.forall_mem_singleton.mpr (grows_onRecord hK fun w => hK.seen w now)⟩⟩
  | removeWorker host port => exact List.forall_mem_singleton.mpr fun x => Grows.refl hK x.1

theorem relates_code (hK : Tolerant K) (o : Op) (h : o.Within K) (m : Memory) : Relates (Grows K) (code o m).body := by
  cases o with
  | registry op => exact relates_statements hK op h
  | getWorkers order perm =>
    intro f hf x
    rw [rangeOver_reads _ f hf x]
    exact Grows.refl hK x.1

end Kept

/-- The record, perhaps added again: with another time, and connected or as it was. -/
def Refreshed (w w' : WorkerInfo) : Prop :=
  ∃ now, w' = { w with lastSeen := now } ∨ w' = { w with lastSeen := now, status := "connected" }

theorem tolerant_refreshed : Tolerant Refreshed := by
  refine ⟨fun w => ⟨w.lastSeen, .inl rfl⟩, ?_, fun w now => ⟨now, .inl rfl⟩, fun w => ⟨w.lastSeen, .inr rfl⟩⟩
  rintro w _ _ ⟨_, rfl | rfl⟩ ⟨now, rfl | rfl⟩
  · exact ⟨now, .inl rfl⟩
  · exact ⟨now, .inr rfl⟩
  · exact ⟨now, .inr rfl⟩
  · exact ⟨now, .inr rfl⟩

theorem tolerant_pair : Tolerant fun w w' => w'.pair = w.pair :=
  ⟨fun _ => rfl, fun _ _ _ h h' => h'.trans h, fun _ _ => rfl, fun _ => rfl⟩

/-- A report keeps the host and the port. -/
theorem Op.within_pair : ∀ o : Op, o.Within fun w w' => w'.pair = w.pair
  | .registry (.updateWorkerMetrics _ _ metrics) => fun w => Prod.ext (metrics.host w) (metrics.port w)
  | .registry (.addManualWorker ..) => trivial
  | .registry (.scan ..) => trivial
  | .registry (.removeWorker ..) => trivial
  | .getWorkers .. => trivial

/-! ## The answer of `GetWorkers` -/

/-- A report of metrics. -/
def Op.reports : Op → Bool
  | .registry (.updateWorkerMetrics ..) => true
  | _ => false

theorem Op.within_refreshed : ∀ {o : Op}, o.reports = false → o.Within Refreshed
  | .registry (.addManualWorker ..), _ => trivial
  | .registry (.scan ..), _ => trivial
  | .registry (.removeWorker ..), _ => trivial
  | .getWorkers .., _ => trivial

/-- The loop appends what the map has under its keys. -/
theorem runAll_appendWorker (m : Memory) : ∀ (keys : List String) (own : Own),
    (runAll (keys.map appendWorker) (m, own)).2.result = own.result ++ keys.filterMap m.workers.lookup
  | [], own => (List.append_nil _).symm
  | key :: keys, own => by
    rw [List.map_cons, runAll, appendWorker, runAll_appendWorker m keys, List.append_assoc]
    cases hp : m.workers.lookup key with
    | none => simp [hp]
    | some p => simp [hp]

theorem getWorkers_result (order : List String → List String) (perm : ∀ keys, (order keys).Perm keys) (m : Memory)
    (own : Own) : (runAll (code (.getWorkers order perm) m).body (m, own)).2.result =
      (order m.workers.keys).filterMap m.workers.lookup :=
  runAll_appendWorker m (order m.workers.keys) { own with result := [] }

/-- The values of a map, key by key. -/
theorem filterMap_keys {β : Type} (s : AList fun _ : String => β) :
    s.keys.filterMap s.lookup = s.entries.map Sigma.snd := by
  have hall : ∀ l : List (Σ _ : String, β), (∀ e ∈ l, s.lookup e.1 = some e.2) →
      (l.map Sigma.fst).filterMap s.lookup = l.map Sigma.snd := by
    intro l hl
    induction l with
    | nil => rfl
    | cons e l ih =>
      obtain ⟨he, hl⟩ := List.forall_mem_cons.mp hl
      simp only [List.map_cons, List.filterMap_cons, he, ih hl]
  exact hall s.entries fun e he => AList.mem_lookup_iff.mpr he

/-- The memory and the registry have the same keys. -/
theorem Memory.Shows.keys {m : Memory} {d : Discovery} (hm : m.Sound) (hd : m.Shows d) :
    m.workers.keys.Perm d.workers.keys := by
  refine (List.perm_ext_iff_of_nodup m.workers.keys_nodup d.workers.keys_nodup).mpr fun key => ?_
  rw [← AList.mem_keys, ← AList.mem_keys, ← AList.lookup_isSome, ← AList.lookup_isSome, ← hd key, Memory.view]
  cases hp : m.workers.lookup key with
  | none => rfl
  | some p => rw [Option.bind_some, List.getElem?_eq_getElem (hm.inHeap key p hp)]; rfl

/-- What the memory has under its keys is the list of the registry. -/
theorem Memory.Shows.values {m : Memory} {d : Discovery} (hm : m.Sound) (hd : m.Shows d) {keys : List String}
    (hkeys : keys.Perm m.workers.keys) : (keys.filterMap m.view).Perm d.getWorkers := by
  have hview : m.view = d.workers.lookup := funext hd
  rw [hview, Discovery.getWorkers, ← filterMap_keys]
  exact (hkeys.trans (Memory.Shows.keys hm hd)).filterMap _

/-- The pointers under keys, and the records that they point to later. -/
theorem forall₂_view {K : WorkerInfo → WorkerInfo → Prop} {m m' : Memory} (hm : m.Sound) (hgrows : Grows K m m') :
    ∀ keys : List String, List.Forall₂ (fun p w => ∃ w', m'.heap[p]? = some w' ∧ K w w')
      (keys.filterMap m.workers.lookup) (keys.filterMap m.view)
  | [] => .nil
  | key :: keys => by
    have ih := forall₂_view hm hgrows keys
    cases hp : m.workers.lookup key with
    | none =>
      have hview : m.view key = none := by rw [Memory.view, hp]; rfl
      simpa only [List.filterMap_cons, hp, hview] using ih
    | some p =>
      have hw : m.heap[p]? = some (m.heap.get ⟨p, hm.inHeap key p hp⟩) := List.getElem?_eq_getElem _
      have hview : m.view key = some (m.heap.get ⟨p, hm.inHeap key p hp⟩) := by
        rw [Memory.view, hp, Option.bind_some, hw]
      simpa only [List.filterMap_cons, hp, hview] using List.Forall₂.cons (hgrows p _ hw) ih

/-- **What a reader of `GetWorkers` finds**, at any later moment and while other operations are under way: the workers
that the registry had when the call took the lock, each with the host and the port that it had then, and with all that
it had but for a refreshed time and status when no report of metrics has begun since. -/
theorem getWorkers_snapshot (owns : List Own) (ls₁ ls₂ : List (Critical.Label Op)) (j : Nat)
    (order : List String → List String) (perm : ∀ keys, (order keys).Perm keys)
    (t : Critical.State Memory Own) (own : Own)
    (hrun : exec (Critical.step code) (Critical.start emptyMemory owns)
      (ls₁ ++ .enter j (.getWorkers order perm) :: ls₂) = some t)
    (hnone : ∀ e ∈ entries ls₂, e.1 ≠ j) (hout : t.threads[j]? = some ⟨own, none⟩) :
    ∃ l, l.Perm (registry (operations (entries ls₁))).getWorkers ∧
      List.Forall₂ (fun p w => ∃ w', t.shared.heap[p]? = some w' ∧ w'.pair = w.pair) own.result l ∧
      ((∀ e ∈ entries ls₂, e.2.reports = false) →
        List.Forall₂ (fun p w => ∃ w', t.shared.heap[p]? = some w' ∧ Refreshed w w') own.result l) := by
  obtain ⟨s, hs, hrun⟩ := exec_append_some hrun
  obtain ⟨u, hu, hrun⟩ := exec_cons_some hrun
  -- The memory when the call takes the lock stands for the registry of the operations before it.
  obtain ⟨x, hx, hstands⟩ := Critical.exec_stands (Critical.stands_start emptyMemory owns) hs
  obtain ⟨hsound, hshows⟩ := shows_atomic Memory.Sound.empty Memory.Shows.empty hx
  rw [hstands.shared_of_enter hu] at hsound hshows
  -- The answer is the one that the whole section gives at that moment.
  have hresult : own.result = (order s.shared.workers.keys).filterMap s.shared.workers.lookup := by
    obtain ⟨y, hy, hstandsU⟩ := Critical.stands_enter hstands hu
    obtain ⟨z, hz, hstandsT⟩ := Critical.exec_stands hstandsU hrun
    have hfinal := hstandsT.own hout
    rw [Critical.own_of_no_entry hnone hz] at hfinal
    obtain ⟨before, hbefore, rfl⟩ := Option.map_eq_some_iff.mp hy
    rw [List.getElem?_set_self (List.getElem?_eq_some_iff.mp hbefore).1, Option.some.injEq] at hfinal
    rw [← hfinal, hstands.shared_of_enter hu]
    exact getWorkers_result order perm s.shared before
  have hsame : u.shared = s.shared := by
    obtain ⟨_, _, rfl, _, _⟩ := Critical.enter_cases hu
    rfl
  have hgrows : ∀ {K : WorkerInfo → WorkerInfo → Prop}, Tolerant K → (∀ e ∈ entries ls₂, e.2.Within K) →
      Grows K s.shared t.shared := by
    intro K hK hwithin
    rw [← hsame]
    exact (Critical.exec_related (Grows.refl hK) (Grows.trans hK)
      (Critical.relates_enter (Grows.refl hK) (relates_code hK (.getWorkers order perm) trivial _) hu)
      (fun e he => relates_code hK e.2 (hwithin e he)) hrun).1
  refine ⟨(order s.shared.workers.keys).filterMap s.shared.view,
    Memory.Shows.values hsound hshows (perm s.shared.workers.keys), ?_, fun hreports => ?_⟩
  · rw [hresult]
    exact forall₂_view hsound (hgrows tolerant_pair fun e _ => e.2.within_pair) _
  · rw [hresult]
    exact forall₂_view hsound (hgrows tolerant_refreshed fun e he => Op.within_refreshed (hreports e he)) _

theorem getWorkers_snapshot_removed :
    ∃ l, l.Perm (registry (operations (entries (overlap.take 5)))).getWorkers ∧
      List.Forall₂ (fun p w => ∃ w', overlapEnd.shared.heap[p]? = some w' ∧ w'.pair = w.pair) [0] l ∧
      ((∀ e ∈ entries (overlap.drop 6), e.2.reports = false) →
        List.Forall₂ (fun p w => ∃ w', overlapEnd.shared.heap[p]? = some w' ∧ Refreshed w w') [0] l) :=
  getWorkers_snapshot [⟨none, []⟩, ⟨none, []⟩] (overlap.take 5) (overlap.drop 6) 1 id .refl overlapEnd ⟨none, [0]⟩ rfl
    (List.forall_mem_cons.mpr ⟨Nat.zero_ne_one, List.forall_mem_singleton.mpr Nat.zero_ne_one⟩) rfl

end LaManchaland.Pointers
