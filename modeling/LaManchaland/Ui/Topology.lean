import LaManchaland.Discovery

/-!
# The topology graph

`TopologyGraph.update` makes a node for the controller and one for every worker, with an edge to the worker's id, and
`layoutNodes` gives positions by id: the controller is the first node with the id `controller`, the ring is made of the
nodes with another id, and `nodePositions` keeps the node placed last under each id. Nodes are known by their place in
`nodes`, positions by their `Slot`.

The id of a worker is its name, or its host, or `worker-` and its place. The graph is well formed exactly when the ids
of the workers are distinct and none is the controller's: `wellFormed_iff`. `Placed` is what one placement gives
(`place_placed`) and later ones keep (`Placed.place`).
-/

namespace LaManchaland.Ui.Topology

/-- The operator `||` on strings. -/
def orElse (a b : String) : String := if a ≠ "" then a else b

/-- A position: the center, or a place on the ring with its number of places. -/
inductive Slot where
  | center
  | ring (i n : Nat)
  deriving DecidableEq

structure Node where
  id : String
  label : String
  type : String
  status : String
  radius : Nat
  data : Option WorkerInfo
  pos : Option Slot

structure Edge where
  source : String
  target : String
  status : String

/-- The state of a `TopologyGraph`; `nodePositions` holds places in `nodes`. -/
structure Graph where
  nodes : List Node
  edges : List Edge
  nodePositions : String → Option Nat

/-- The graph of the constructor. -/
def newGraph : Graph := ⟨[], [], fun _ => none⟩

/-! ## The layout -/

/-- A node gets its coordinates and is entered into `nodePositions`. -/
def Graph.place (g : Graph) (i : Nat) (slot : Slot) : Graph :=
  match g.nodes[i]? with
  | some node =>
    { g with
      nodes := g.nodes.set i { node with pos := some slot }
      nodePositions := Function.update g.nodePositions node.id (some i) }
  | none => g

/-- The loop of `layoutNodes`. -/
def Graph.placeAll (g : Graph) (l : List (Nat × Slot)) : Graph := l.foldl (fun g p => g.place p.1 p.2) g

/-- The first part of `layoutNodes`. -/
def Graph.layoutController (g : Graph) : Graph :=
  match g.nodes.findIdx? (·.id = "controller") with
  | some controller => g.place controller .center
  | none => g

/-- The second part of `layoutNodes`. -/
def Graph.layoutWorkers (g : Graph) : Graph :=
  let workers := (List.range g.nodes.length).filter fun i => g.nodes[i]?.map Node.id ≠ some "controller"
  g.placeAll (workers.zipIdx.map fun p => (p.1, .ring p.2 workers.length))

def Graph.layoutNodes (g : Graph) : Graph := { g with nodePositions := fun _ => none }.layoutController.layoutWorkers

/-! ## The update -/

/-- The id of the worker at a place. -/
def nodeId (i : Nat) (worker : WorkerInfo) : String :=
  orElse worker.name (orElse worker.host ("worker-" ++ toString i))

def controllerNode : Node where
  id := "controller"
  label := "Controller"
  type := "controller"
  status := "active"
  radius := 40
  data := none
  pos := none

def workerNode (i : Nat) (worker : WorkerInfo) : Node where
  id := nodeId i worker
  label := orElse worker.name (orElse worker.host ("Worker " ++ toString (i + 1)))
  type := "worker"
  status := orElse worker.status "available"
  radius := 30
  data := some worker
  pos := none

def workerEdge (i : Nat) (worker : WorkerInfo) : Edge where
  source := "controller"
  target := nodeId i worker
  status := if worker.status = "busy" then "busy" else "active"

def Graph.addWorker (g : Graph) (i : Nat) (worker : WorkerInfo) : Graph :=
  { g with nodes := g.nodes ++ [workerNode i worker], edges := g.edges ++ [workerEdge i worker] }

/-- `update`; the list is absent from the message when there is none. -/
def Graph.update (g : Graph) (data : Option (List WorkerInfo)) : Graph :=
  let g := { g with nodes := [], edges := [] }
  let g := { g with nodes := g.nodes ++ [controllerNode] }
  let workers := data.getD []
  let g := workers.zipIdx.foldl (fun g p => g.addWorker p.2 p.1) g
  g.layoutNodes

/-! ## What is drawn and clicked -/

/-- `drawEdge`: the two nodes between which the line goes. -/
def Graph.drawEdge (g : Graph) (edge : Edge) : Option (Nat × Nat) :=
  match g.nodePositions edge.source, g.nodePositions edge.target with
  | some source, some target => some (source, target)
  | _, _ => none

/-- `getNodeAtPosition` at the middle of a slot. -/
def Graph.getNodeAtPosition (g : Graph) (slot : Slot) : Option Nat := g.nodes.findIdx? (·.pos = some slot)

/-- The graph shows the controller and the workers. -/
structure WellFormed (g : Graph) (workers : List WorkerInfo) : Prop where
  /-- The nodes are the controller and one for each worker. -/
  nodes : g.nodes.map Node.data = none :: workers.map some
  positioned : ∀ node ∈ g.nodes, node.pos ≠ none
  ids : (g.nodes.map Node.id).Nodup
  edges : g.edges.length = workers.length
  /-- The edge of a worker goes from the controller to the worker's node. -/
  drawn : ∀ i w, workers[i]? = some w → ∃ edge, g.edges[i]? = some edge ∧ g.drawEdge edge = some (0, i + 1)
  clicked : ∀ i w, workers[i]? = some w → ∃ node slot, g.nodes[i + 1]? = some node ∧ node.pos = some slot ∧
    g.getNodeAtPosition slot = some (i + 1)

/-! ## What a placement does -/

section Place

variable {g : Graph} {i j : Nat} {slot slot' : Slot}

/-- A field that the new element shares with the old one. -/
theorem map_set_of_eq {α β : Type*} {f : α → β} {l : List α} {x y : α} (h : l[i]? = some x) (hy : f y = f x) :
    (l.set i y).map f = l.map f := by
  obtain ⟨hi, rfl⟩ := List.getElem?_eq_some_iff.mp h
  have hi' : i < (l.map f).length := by rwa [List.length_map]
  have hself : (l.map f).set i (l.map f)[i] = l.map f := List.set_getElem_self hi'
  rwa [List.getElem_map, ← hy, ← List.map_set] at hself

@[simp] theorem place_ids : (g.place i slot).nodes.map Node.id = g.nodes.map Node.id := by
  unfold Graph.place
  split
  · rename_i node hnode
    exact map_set_of_eq hnode rfl
  · rfl

@[simp] theorem place_data : (g.place i slot).nodes.map Node.data = g.nodes.map Node.data := by
  unfold Graph.place
  split
  · rename_i node hnode
    exact map_set_of_eq hnode rfl
  · rfl

@[simp] theorem place_edges : (g.place i slot).edges = g.edges := by
  unfold Graph.place
  split <;> rfl

/-- The node is in its slot, and its id leads to it. -/
def Placed (g : Graph) (i : Nat) (slot : Slot) : Prop :=
  ∃ node, g.nodes[i]? = some node ∧ node.pos = some slot ∧ g.nodePositions node.id = some i

/-- A placement places its node. -/
theorem place_placed (h : i < g.nodes.length) : Placed (g.place i slot) i slot := by
  have hnode : g.nodes[i]? = some g.nodes[i] := List.getElem?_eq_getElem h
  simp only [Graph.place, hnode, Placed]
  refine ⟨_, List.getElem?_set_self h, rfl, ?_⟩
  exact Function.update_self ..

/-- A placement keeps the other nodes in their slots when ids are distinct. -/
theorem Placed.place (hids : (g.nodes.map Node.id).Nodup) (hij : i ≠ j) (h : Placed g j slot) :
    Placed (g.place i slot') j slot := by
  obtain ⟨node, hnode, hpos, hpositions⟩ := h
  unfold Graph.place
  split
  · rename_i other hother
    refine ⟨node, by rwa [List.getElem?_set_ne hij], hpos, ?_⟩
    have hne : node.id ≠ other.id := by
      intro he
      have hlt : i < (g.nodes.map Node.id).length := by
        rw [List.length_map]
        exact (List.getElem?_eq_some_iff.mp hother).1
      refine hij ((List.getElem?_inj hlt hids).mp ?_)
      rw [List.getElem?_map, List.getElem?_map, hother, hnode, Option.map_some, Option.map_some, he]
    exact (Function.update_of_ne hne ..).trans hpositions
  · exact ⟨node, hnode, hpos, hpositions⟩

end Place

section PlaceAll

variable {g : Graph} {i : Nat} {slot : Slot}

@[simp] theorem placeAll_ids : ∀ (l : List (Nat × Slot)) (g : Graph),
    (g.placeAll l).nodes.map Node.id = g.nodes.map Node.id
  | [], _ => rfl
  | p :: l, g => (placeAll_ids l (g.place p.1 p.2)).trans place_ids

@[simp] theorem placeAll_data : ∀ (l : List (Nat × Slot)) (g : Graph),
    (g.placeAll l).nodes.map Node.data = g.nodes.map Node.data
  | [], _ => rfl
  | p :: l, g => (placeAll_data l (g.place p.1 p.2)).trans place_data

@[simp] theorem placeAll_edges : ∀ (l : List (Nat × Slot)) (g : Graph), (g.placeAll l).edges = g.edges
  | [], _ => rfl
  | p :: l, g => (placeAll_edges l (g.place p.1 p.2)).trans place_edges

/-- Placements of other nodes keep a node in its slot. -/
theorem Placed.placeAll : ∀ {l : List (Nat × Slot)} {g : Graph}, (g.nodes.map Node.id).Nodup → i ∉ l.map Prod.fst →
    Placed g i slot → Placed (g.placeAll l) i slot
  | [], _, _, _, h => h
  | p :: l, g, hids, hi, h => by
    rw [List.map_cons, List.mem_cons, not_or] at hi
    show Placed ((g.place p.1 p.2).placeAll l) i slot
    exact Placed.placeAll (by rwa [place_ids]) hi.2 (h.place hids (Ne.symm hi.1))

/-- **The loop places every node of its list**, when neither ids nor nodes repeat. -/
theorem placeAll_placed : ∀ {l : List (Nat × Slot)} {g : Graph}, (g.nodes.map Node.id).Nodup →
    (l.map Prod.fst).Nodup → (i, slot) ∈ l → i < g.nodes.length → Placed (g.placeAll l) i slot
  | p :: l, g, hids, hl, hmem, hi => by
    rw [List.map_cons, List.nodup_cons] at hl
    have hids' : ((g.place p.1 p.2).nodes.map Node.id).Nodup := by rwa [place_ids]
    show Placed ((g.place p.1 p.2).placeAll l) i slot
    rcases List.mem_cons.mp hmem with rfl | hmem
    · exact (place_placed hi).placeAll hids' hl.1
    · have hlen : (g.place p.1 p.2).nodes.length = g.nodes.length := by
        rw [← List.length_map Node.id, place_ids, List.length_map]
      exact placeAll_placed hids' hl.2 hmem (by rwa [hlen])

end PlaceAll

/-! ## The nodes of an update -/

/-- The ids of the workers. -/
def nodeIds (workers : List WorkerInfo) : List String := workers.mapIdx nodeId

/-- The loop of `update` adds one node and one edge for each worker. -/
theorem foldl_addWorker : ∀ (ws : List WorkerInfo) (k : Nat) (g : Graph),
    (ws.zipIdx k).foldl (fun g p => g.addWorker p.2 p.1) g =
      { g with
        nodes := g.nodes ++ ws.mapIdx fun i w => workerNode (k + i) w
        edges := g.edges ++ ws.mapIdx fun i w => workerEdge (k + i) w }
  | [], _, _ => by simp
  | w :: ws, k, g => by
    rw [List.zipIdx_cons, List.foldl_cons, foldl_addWorker ws]
    simp [Graph.addWorker, List.mapIdx_cons, Nat.add_assoc, Nat.add_comm 1]

/-- The graph that `update` lays out. -/
def bare (workers : List WorkerInfo) : Graph where
  nodes := controllerNode :: workers.mapIdx workerNode
  edges := workers.mapIdx workerEdge
  nodePositions := fun _ => none

theorem update_eq (g : Graph) (data : Option (List WorkerInfo)) :
    g.update data = (bare (data.getD [])).layoutNodes := by
  simp only [Graph.update, foldl_addWorker, Nat.zero_add, List.nil_append, List.singleton_append]
  rfl

theorem bare_ids (workers : List WorkerInfo) :
    (bare workers).nodes.map Node.id = "controller" :: nodeIds workers := by
  have hids : (workers.mapIdx workerNode).map Node.id = nodeIds workers :=
    List.ext_getElem? fun i => by
      simp only [nodeIds, List.getElem?_map, List.getElem?_mapIdx, Option.map_map]
      rfl
  rw [bare, List.map_cons, hids]
  rfl

theorem bare_data (workers : List WorkerInfo) : (bare workers).nodes.map Node.data = none :: workers.map some := by
  have hdata : (workers.mapIdx workerNode).map Node.data = workers.map some :=
    List.ext_getElem? fun i => by
      simp only [List.getElem?_map, List.getElem?_mapIdx, Option.map_map]
      rfl
  rw [bare, List.map_cons, hdata]
  rfl

/-- The layout keeps ids, workers and edges. -/
theorem layoutNodes_frame (g : Graph) :
    g.layoutNodes.nodes.map Node.id = g.nodes.map Node.id ∧ g.layoutNodes.nodes.map Node.data = g.nodes.map Node.data ∧
      g.layoutNodes.edges = g.edges := by
  simp only [Graph.layoutNodes, Graph.layoutWorkers, placeAll_ids, placeAll_data, placeAll_edges,
    Graph.layoutController]
  split
  · simp only [place_ids, place_data, place_edges, and_self]
  · exact ⟨rfl, rfl, rfl⟩

/-- The slot of a node when no worker is in the way of another one. -/
def slotOf (n : Nat) : Nat → Slot
  | 0 => .center
  | i + 1 => .ring i n

/-- The places of the ring: all nodes but the first, when no worker has the controller's id. -/
theorem ring_places {ids : List String} (h : "controller" ∉ ids) :
    (List.range (ids.length + 1)).filter (fun i => ("controller" :: ids)[i]? ≠ some "controller") =
      (List.range ids.length).map Nat.succ := by
  rw [List.range_succ_eq_map, List.filter_cons_of_neg (by simp)]
  refine List.filter_eq_self.mpr fun i hi => ?_
  obtain ⟨k, -, rfl⟩ := List.mem_map.mp hi
  refine decide_eq_true fun hk => h ?_
  rw [Nat.succ_eq_add_one, List.getElem?_cons_succ] at hk
  exact List.mem_of_getElem? hk

/-- The slots of the ring, in the order of the workers. -/
theorem ring_slots (n : Nat) :
    (((List.range n).map Nat.succ).zipIdx.map fun p => (p.1, Slot.ring p.2 n)) =
      (List.range n).map fun k => (k + 1, Slot.ring k n) := by
  refine List.ext_getElem? fun i => ?_
  simp only [List.getElem?_map, List.getElem?_zipIdx, Option.map_map]
  by_cases hi : i < n
  · simp [List.getElem?_range hi]
  · rw [List.getElem?_eq_none (by simpa using hi)]
    rfl

/-- **The layout with distinct ids** places the controller in the center and the workers on the ring, in order. -/
theorem layoutNodes_placed {workers : List WorkerInfo} (hids : ("controller" :: nodeIds workers).Nodup) :
    ∀ i, i < workers.length + 1 → Placed (bare workers).layoutNodes i (slotOf workers.length i) := by
  have hlen : (nodeIds workers).length = workers.length := List.length_mapIdx
  have hcontroller : "controller" ∉ nodeIds workers := (List.nodup_cons.mp hids).1
  let g := (bare workers).place 0 .center
  have hgids : g.nodes.map Node.id = "controller" :: nodeIds workers := place_ids.trans (bare_ids workers)
  have hglen : g.nodes.length = workers.length + 1 := by
    rw [← List.length_map Node.id, hgids, List.length_cons, hlen]
  let ring := (List.range workers.length).map fun k => (k + 1, Slot.ring k workers.length)
  have hlayout : (bare workers).layoutNodes = g.placeAll ring := by
    have hfilter : ((List.range g.nodes.length).filter fun i => g.nodes[i]?.map Node.id ≠ some "controller") =
        (List.range workers.length).map Nat.succ := by
      simp only [← List.getElem?_map, hgids, hglen, ← hlen]
      exact ring_places hcontroller
    show g.layoutWorkers = _
    rw [Graph.layoutWorkers]
    simp only [hfilter, List.length_map, List.length_range, ring_slots]
    rfl
  have hfst : ring.map Prod.fst = (List.range workers.length).map Nat.succ := by
    rw [List.map_map]
    rfl
  have hnodup : (g.nodes.map Node.id).Nodup := by rwa [hgids]
  rw [hlayout]
  intro i hi
  cases i with
  | zero =>
    refine (place_placed (Nat.succ_pos _)).placeAll hnodup ?_
    rw [hfst]
    simp
  | succ k =>
    have hk : k < workers.length := by omega
    refine placeAll_placed hnodup ?_ (List.mem_map.mpr ⟨k, List.mem_range.mpr hk, rfl⟩) (by omega)
    rw [hfst]
    exact List.nodup_range.map Nat.succ_injective

/-- Slots of different nodes differ. -/
theorem slotOf_injective (n : Nat) : Function.Injective (slotOf n) := by
  intro i j h
  cases i <;> cases j <;> simp_all [slotOf]

/-- The ids that an update gives are distinct, and none of a worker is the controller's. -/
def DistinctIds (workers : List WorkerInfo) : Prop :=
  (∀ (i : Nat) (w : WorkerInfo), workers[i]? = some w → nodeId i w ≠ "controller") ∧
  ∀ (i j : Nat) (w w' : WorkerInfo), workers[i]? = some w → workers[j]? = some w' → nodeId i w = nodeId j w' → i = j

theorem distinctIds_iff {workers : List WorkerInfo} :
    DistinctIds workers ↔ ("controller" :: nodeIds workers).Nodup := by
  have hget : ∀ i, (nodeIds workers)[i]? = workers[i]?.map (nodeId i) := fun i => List.getElem?_mapIdx
  have hsome : ∀ {i : Nat} {w : WorkerInfo}, workers[i]? = some w → (nodeIds workers)[i]? = some (nodeId i w) := by
    intro i w hw
    rw [hget, hw]
    rfl
  rw [List.nodup_cons, List.nodup_iff_getElem?_ne_getElem?]
  constructor
  · rintro ⟨hcontroller, hdistinct⟩
    refine ⟨fun hmem => ?_, fun i j hij hj he => ?_⟩
    · obtain ⟨i, hi⟩ := List.mem_iff_getElem?.mp hmem
      rw [hget] at hi
      obtain ⟨w, hw, hid⟩ := Option.map_eq_some_iff.mp hi
      exact hcontroller i w hw hid
    · obtain ⟨id, hid⟩ : ∃ id, (nodeIds workers)[j]? = some id := ⟨_, List.getElem?_eq_getElem hj⟩
      rw [hid] at he
      rw [hget] at he hid
      obtain ⟨w, hw, rfl⟩ := Option.map_eq_some_iff.mp he
      obtain ⟨w', hw', hsame⟩ := Option.map_eq_some_iff.mp hid
      have := hdistinct i j w w' hw hw' hsame.symm
      omega
  · rintro ⟨hcontroller, hdistinct⟩
    refine ⟨fun i w hw he => hcontroller ?_, fun i j w w' hw hw' he => ?_⟩
    · exact List.mem_of_getElem? ((hsome hw).trans (congrArg some he))
    · have hlt : ∀ {k : Nat} {x : WorkerInfo}, workers[k]? = some x → k < (nodeIds workers).length := fun hx =>
        (List.getElem?_eq_some_iff.mp (hsome hx)).1
      have hij : (nodeIds workers)[i]? = (nodeIds workers)[j]? := by rw [hsome hw, hsome hw', he]
      rcases Nat.lt_trichotomy i j with h | h | h
      · exact absurd hij (hdistinct i j h (hlt hw'))
      · exact h
      · exact absurd hij.symm (hdistinct j i h (hlt hw))

/-- The node in a slot is the first one there. -/
theorem getNodeAtPosition_placed {g : Graph} {n i : Nat} (hplaced : ∀ i, i < n → Placed g i (slotOf (n - 1) i))
    (hlen : g.nodes.length = n) (hi : i < n) : g.getNodeAtPosition (slotOf (n - 1) i) = some i := by
  have hpos : ∀ j (hj : j < g.nodes.length), g.nodes[j].pos = some (slotOf (n - 1) j) := by
    intro j hj
    obtain ⟨node, hnode, hpos, -⟩ := hplaced j (by omega)
    rw [List.getElem?_eq_getElem hj, Option.some.injEq] at hnode
    rw [hnode]
    exact hpos
  refine List.findIdx?_eq_some_iff_getElem.mpr ⟨by omega, ?_, fun j hji => ?_⟩
  · simp [hpos]
  · rw [hpos, decide_eq_true_eq, Option.some.injEq]
    intro hsame
    have := slotOf_injective _ hsame
    omega

section WellFormed

variable {workers : List WorkerInfo} {i : Nat} {w : WorkerInfo}

theorem length_layoutNodes (workers : List WorkerInfo) :
    (bare workers).layoutNodes.nodes.length = workers.length + 1 := by
  rw [← List.length_map Node.data, (layoutNodes_frame _).2.1, bare_data, List.length_cons, List.length_map]

/-- The id under which a node was placed is the one at its place. -/
theorem nodePositions_layoutNodes (h : ("controller" :: nodeIds workers).Nodup) {id : String}
    (hi : i < workers.length + 1) (hid : ("controller" :: nodeIds workers)[i]? = some id) :
    (bare workers).layoutNodes.nodePositions id = some i := by
  obtain ⟨node, hnode, -, hnodeid⟩ := layoutNodes_placed h i hi
  rw [← bare_ids, ← (layoutNodes_frame _).1, List.getElem?_map, hnode, Option.map_some, Option.some.injEq] at hid
  rwa [hid] at hnodeid

/-- The edge of a worker is drawn from the controller to the worker's node. -/
theorem drawEdge_layoutNodes (h : ("controller" :: nodeIds workers).Nodup) (hw : workers[i]? = some w) :
    (bare workers).layoutNodes.drawEdge (workerEdge i w) = some (0, i + 1) := by
  have hi : i < workers.length := (List.getElem?_eq_some_iff.mp hw).1
  have hid : ("controller" :: nodeIds workers)[i + 1]? = some (nodeId i w) := by
    rw [List.getElem?_cons_succ, nodeIds, List.getElem?_mapIdx, hw]
    rfl
  have hsource : (bare workers).layoutNodes.nodePositions (workerEdge i w).source = some 0 :=
    nodePositions_layoutNodes h (Nat.succ_pos _) rfl
  have htarget : (bare workers).layoutNodes.nodePositions (workerEdge i w).target = some (i + 1) :=
    nodePositions_layoutNodes h (by omega) hid
  rw [Graph.drawEdge, hsource, htarget]

/-- A layout with distinct ids is well formed. -/
theorem wellFormed_layoutNodes (h : ("controller" :: nodeIds workers).Nodup) :
    WellFormed (bare workers).layoutNodes workers := by
  obtain ⟨hids, hdata, hedges⟩ := layoutNodes_frame (bare workers)
  have hplaced := layoutNodes_placed h
  have hlen := length_layoutNodes workers
  refine ⟨hdata.trans (bare_data workers), fun node hnode => ?_, by rwa [hids, bare_ids], ?_, fun i w hw => ?_,
    fun i w hw => ?_⟩
  · obtain ⟨i, hi⟩ := List.mem_iff_getElem?.mp hnode
    obtain ⟨node', hnode', hpos, -⟩ := hplaced i (hlen ▸ (List.getElem?_eq_some_iff.mp hi).1)
    rw [hi, Option.some.injEq] at hnode'
    rw [hnode', hpos]
    exact Option.some_ne_none _
  · rw [hedges]
    exact List.length_mapIdx
  · refine ⟨workerEdge i w, ?_, drawEdge_layoutNodes h hw⟩
    rw [hedges, bare, List.getElem?_mapIdx, hw]
    rfl
  · have hi : i < workers.length := (List.getElem?_eq_some_iff.mp hw).1
    obtain ⟨node, hnode, hpos, -⟩ := hplaced (i + 1) (by omega)
    exact ⟨node, _, hnode, hpos, getNodeAtPosition_placed (n := workers.length + 1) hplaced hlen (by omega)⟩

end WellFormed

/-- **When the topology graph is well formed**, for every list of workers and after any earlier updates: no worker has
the id of the controller or of another worker. -/
theorem wellFormed_iff (g : Graph) (data : Option (List WorkerInfo)) :
    WellFormed (g.update data) (data.getD []) ↔ DistinctIds (data.getD []) := by
  rw [distinctIds_iff, update_eq]
  refine ⟨fun h => ?_, wellFormed_layoutNodes⟩
  rw [← bare_ids, ← (layoutNodes_frame _).1]
  exact h.ids

/-- Two workers of one name share a node. -/
theorem not_wellFormed :
    ¬∀ (g : Graph) (data : Option (List WorkerInfo)), WellFormed (g.update data) (data.getD []) := by
  intro h
  have hids := (h newGraph (some [manualWorker 0 "10.0.0.2" 50052 "gpu", manualWorker 0 "10.0.0.3" 50052 "gpu"])).ids
  revert hids
  decide

end LaManchaland.Ui.Topology
