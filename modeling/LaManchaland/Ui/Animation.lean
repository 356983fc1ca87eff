import LaManchaland.Lib.Runs
import LaManchaland.Ui.Status
import LaManchaland.Ui.Topology

/-!
# The animation of the topology graph

`animate` draws the graph and asks the browser for another frame, whose callback is `animate` again. `startAnimation`
does nothing while `animationId` is set. Drawing throws at a node without coordinates, and `layoutNodes` gives none to a
worker that has the name `controller`, or no name and that host (`draws_update`).

The graph is `Looping` when `animationId` is set exactly while its callback waits. `looping_iff`: a run keeps it so
exactly when no frame finds such a worker. A frame that does is the last one: its handle stays, and no later message
starts the loop again (`stuck_forever`). When such a worker comes before the first frame, the message that brings it is
cut off before the count of the workers and the status of the model: `upToDate_iff`.
-/

namespace LaManchaland.Ui.Topology

/-! ## Coordinates -/

/-- `draw`; the gradient of a node without coordinates throws. -/
def Graph.draws (g : Graph) : Bool := g.nodes.all fun node => node.pos.isSome

/-- The node at a place has coordinates. -/
def HasPos (g : Graph) (i : Nat) : Prop := ∃ node, g.nodes[i]? = some node ∧ node.pos.isSome = true

section Coordinates

variable {g : Graph}

theorem draws_iff : g.draws = true ↔ ∀ i, i < g.nodes.length → HasPos g i := by
  rw [Graph.draws, List.all_eq_true]
  constructor
  · intro h i hi
    exact ⟨g.nodes[i], List.getElem?_eq_getElem hi, h _ (List.getElem_mem hi)⟩
  · intro h node hnode
    obtain ⟨i, hi⟩ := List.mem_iff_getElem?.mp hnode
    obtain ⟨node', hnode', hpos⟩ := h i (List.getElem?_eq_some_iff.mp hi).1
    rw [hi, Option.some.injEq] at hnode'
    rwa [hnode']

@[simp] theorem place_length (i : Nat) (slot : Slot) : (g.place i slot).nodes.length = g.nodes.length := by
  rw [← List.length_map Node.id, place_ids, List.length_map]

/-- A placement gives coordinates to its node alone. -/
theorem place_hasPos (i : Nat) (slot : Slot) (j : Nat) :
    HasPos (g.place i slot) j ↔ HasPos g j ∨ (j = i ∧ j < g.nodes.length) := by
  unfold Graph.place
  split
  · rename_i node hnode
    have hlt := (List.getElem?_eq_some_iff.mp hnode).1
    by_cases hij : j = i
    · subst hij
      refine iff_of_true ⟨_, List.getElem?_set_self hlt, rfl⟩ (.inr ⟨rfl, hlt⟩)
    · simp only [HasPos, List.getElem?_set_ne (Ne.symm hij), hij, false_and, or_false]
  · rename_i hnone
    refine (or_iff_left ?_).symm
    rintro ⟨rfl, hlt⟩
    rw [List.getElem?_eq_getElem hlt] at hnone
    cases hnone

theorem placeAll_hasPos : ∀ (l : List (Nat × Slot)) (g : Graph) (j : Nat),
    HasPos (g.placeAll l) j ↔ HasPos g j ∨ (j ∈ l.map Prod.fst ∧ j < g.nodes.length)
  | [], g, j => by simp [Graph.placeAll]
  | p :: l, g, j => by
    show HasPos ((g.place p.1 p.2).placeAll l) j ↔ _
    rw [placeAll_hasPos l, place_hasPos, place_length, List.map_cons, List.mem_cons]
    tauto

/-- The nodes that the layout gives coordinates: the first one, and those with another id than the controller's. -/
theorem layoutNodes_hasPos (workers : List WorkerInfo) {j : Nat} (hj : j < workers.length + 1) :
    HasPos (bare workers).layoutNodes j ↔ j = 0 ∨ ("controller" :: nodeIds workers)[j]? ≠ some "controller" := by
  let g := (bare workers).place 0 .center
  have hids : ∀ i, g.nodes[i]?.map Node.id = ("controller" :: nodeIds workers)[i]? := fun i => by
    rw [← List.getElem?_map, place_ids, bare_ids]
  have hlen : g.nodes.length = workers.length + 1 := by
    rw [place_length, bare, List.length_cons, List.length_mapIdx]
  have hbare : ¬HasPos (bare workers) j := by
    rintro ⟨node, hnode, hpos⟩
    cases j with
    | zero =>
      cases hnode
      cases hpos
    | succ j =>
      rw [bare, List.getElem?_cons_succ, List.getElem?_mapIdx] at hnode
      obtain ⟨w, -, rfl⟩ := Option.map_eq_some_iff.mp hnode
      cases hpos
  show HasPos g.layoutWorkers j ↔ _
  rw [Graph.layoutWorkers, placeAll_hasPos, place_hasPos, List.map_map]
  have hfst : ∀ (l : List Nat) (n : Nat), l.zipIdx.map (Prod.fst ∘ fun p => (p.1, Slot.ring p.2 n)) = l := fun l n =>
    List.zipIdx_map_fst 0 l
  rw [hfst, List.mem_filter, List.mem_range, hlen, hids, decide_eq_true_iff]
  have hbareLen : (bare workers).nodes.length = workers.length + 1 := by rw [← hlen, place_length]
  rw [hbareLen]
  tauto

end Coordinates

/-- No worker would be a node with the id of the controller. -/
def NoController (workers : List WorkerInfo) : Prop := ∀ w ∈ workers, orElse w.name w.host ≠ "controller"

instance (workers : List WorkerInfo) : Decidable (NoController workers) := List.decidableBAll _ _

theorem nodeId_eq_controller {i : Nat} {w : WorkerInfo} :
    nodeId i w = "controller" ↔ orElse w.name w.host = "controller" := by
  have hplace : "worker-" ++ toString i ≠ "controller" := by
    intro h
    have := congrArg (fun s : String => s.toList.head?) h
    rw [String.toList_append] at this
    exact absurd this (by simp)
  unfold nodeId orElse
  split
  · rfl
  · rename_i hname
    split
    · rfl
    · rename_i hhost
      rw [not_not] at hhost
      rw [hhost]
      exact iff_of_false hplace (by decide)

/-- **When a graph can be drawn** after an update. -/
theorem draws_update (g : Graph) (workers : List WorkerInfo) :
    (g.update (some workers)).draws = true ↔ NoController workers := by
  rw [update_eq, Option.getD_some, draws_iff, length_layoutNodes]
  constructor
  · intro h w hw hid
    obtain ⟨i, hi⟩ := List.mem_iff_getElem?.mp hw
    have hlt := (List.getElem?_eq_some_iff.mp hi).1
    have hpos := (layoutNodes_hasPos workers (j := i + 1) (by omega)).mp (h (i + 1) (by omega))
    rw [List.getElem?_cons_succ, nodeIds, List.getElem?_mapIdx, hi, Option.map_some,
      nodeId_eq_controller.mpr hid] at hpos
    exact hpos.elim (fun h => by cases h) fun h => h rfl
  · intro h i hi
    rw [layoutNodes_hasPos workers hi]
    cases i with
    | zero => exact .inl rfl
    | succ i =>
      refine .inr fun hid => ?_
      rw [List.getElem?_cons_succ, nodeIds, List.getElem?_mapIdx] at hid
      obtain ⟨w, hw, hid⟩ := Option.map_eq_some_iff.mp hid
      exact h w (List.mem_of_getElem? hw) (nodeId_eq_controller.mp hid)

end LaManchaland.Ui.Topology

namespace LaManchaland.Ui.Animation

open Runs
open Ui.Topology (Graph newGraph NoController draws_update)

/-! ## The loop -/

/-- A `TopologyGraph` with its loop: the callbacks that wait for a frame, the next handle that the browser gives, and
how often the graph has been drawn. -/
structure Topology where
  graph : Graph
  animationId : Option Nat
  callbacks : List Nat
  handle : Nat
  drawn : Nat

/-- `animate`, and whether it returns; an error of `draw` comes before anything is changed. -/
def animate (t : Topology) : Topology × Bool :=
  if t.graph.draws then
    ({ t with
      drawn := t.drawn + 1
      animationId := some t.handle
      callbacks := t.callbacks ++ [t.handle]
      handle := t.handle + 1 }, true)
  else (t, false)

def startAnimation (t : Topology) : Topology × Bool := if t.animationId.isSome then (t, true) else animate t

/-- The callbacks of a frame. -/
def frame (t : Topology) : Topology := t.callbacks.foldl (fun t _ => (animate t).1) { t with callbacks := [] }

/-- The graph of the new workers. -/
def update (workers : List WorkerInfo) (t : Topology) : Topology := { t with graph := t.graph.update (some workers) }

/-- A handle is set exactly while its callback waits. -/
def Looping (t : Topology) : Prop := t.callbacks = t.animationId.toList

/-- The handle of a frame that is over is still set. -/
def Stuck (t : Topology) : Prop := t.callbacks = [] ∧ t.animationId ≠ none

section Loop

variable {t : Topology}

/-- `startAnimation` leaves the graph. -/
theorem startAnimation_graph (t : Topology) : (startAnimation t).1.graph = t.graph := by
  unfold startAnimation animate
  split
  · rfl
  · split <;> rfl

/-- It returns when the loop has been started or the graph can be drawn. -/
theorem startAnimation_returns : (startAnimation t).2 = true ↔ t.animationId ≠ none ∨ t.graph.draws = true := by
  rw [← Option.isSome_iff_ne_none]
  unfold startAnimation animate
  split
  · rename_i h
    exact iff_of_true rfl (.inl h)
  · rename_i h
    split
    · rename_i h'
      exact iff_of_true rfl (.inr h')
    · rename_i h'
      exact iff_of_false Bool.false_ne_true (not_or.mpr ⟨h, h'⟩)

theorem looping_startAnimation (h : Looping t) : Looping (startAnimation t).1 := by
  unfold startAnimation
  split
  · exact h
  · rename_i hnone
    rw [Option.not_isSome_iff_eq_none] at hnone
    unfold animate
    split
    · rw [Looping, hnone] at h
      show t.callbacks ++ [t.handle] = [t.handle]
      rw [h]
      rfl
    · exact h

theorem startAnimation_of_stuck (h : Stuck t) : startAnimation t = (t, true) :=
  if_pos (Option.isSome_iff_ne_none.mpr h.2)

/-- The one callback of a loop. -/
theorem frame_of_looping (h : Looping t) (hne : t.callbacks ≠ []) :
    t.animationId ≠ none ∧ frame t = (animate { t with callbacks := [] }).1 := by
  rw [Looping] at h
  cases hid : t.animationId with
  | none =>
    rw [hid] at h
    exact absurd h hne
  | some id =>
    rw [hid] at h
    refine ⟨Option.some_ne_none id, ?_⟩
    rw [frame, h, hid]
    rfl

/-- **A frame** keeps the loop exactly when the graph can be drawn. -/
theorem looping_frame_iff (h : Looping t) (hne : t.callbacks ≠ []) : Looping (frame t) ↔ t.graph.draws = true := by
  obtain ⟨hid, hframe⟩ := frame_of_looping h hne
  rw [hframe]
  by_cases hdraws : t.graph.draws = true
  · refine iff_of_true ?_ hdraws
    rw [animate, if_pos hdraws]
    rfl
  · refine iff_of_false (fun hloop => hid ?_) hdraws
    rw [animate, if_neg hdraws] at hloop
    exact Option.toList_eq_nil_iff.mp (Eq.symm hloop)

theorem frame_graph (h : Looping t) (hne : t.callbacks ≠ []) : (frame t).graph = t.graph := by
  rw [(frame_of_looping h hne).2]
  unfold animate
  split <;> rfl

/-- A frame that throws leaves the loop stuck. -/
theorem stuck_frame (h : Looping t) (hne : t.callbacks ≠ []) (hthrows : ¬t.graph.draws = true) : Stuck (frame t) := by
  obtain ⟨hid, hframe⟩ := frame_of_looping h hne
  rw [hframe, animate, if_neg hthrows]
  exact ⟨rfl, hid⟩

end Loop

/-! ## The page -/

/-- The page: the graph, the workers on its cards, and what is shown beside them. -/
structure Page where
  topology : Topology
  workers : List WorkerInfo
  count : Nat
  view : ModelView

/-- The page before its first message. -/
def Page.init : Page := ⟨⟨newGraph, none, [], 1, 0⟩, [], 0, freshView⟩

/-- `updateWorkers`, and whether it returns; the count comes after the animation. -/
def updateWorkers (workers : List WorkerInfo) (p : Page) : Page × Bool :=
  match startAnimation (update workers p.topology) with
  | (t, true) => ({ p with workers := workers, topology := t, count := workers.length }, true)
  | (t, false) => ({ p with workers := workers, topology := t }, false)

/-- A push, or the answers to `fetchInitialData` that are ok; an error of the first part ends the handler. -/
def receive (workers : Option (List WorkerInfo)) (model : Option ModelMessage) (p : Page) : Page :=
  match workers.elim (p, true) fun workers => updateWorkers workers p with
  | (p, true) => model.elim p fun model => { p with view := updateModelStatus model p.view }
  | (p, false) => p

/-- What happens to the page; `tabShown` is the timer of `switchTab`. -/
inductive Event where
  | receive (workers : Option (List WorkerInfo)) (model : Option ModelMessage)
  | frame
  | tabShown

def step (p : Page) : Event → Option Page
  | .receive workers model => some (receive workers model p)
  | .frame => if p.topology.callbacks = [] then none else some { p with topology := frame p.topology }
  | .tabShown => some { p with topology := (startAnimation p.topology).1 }

section Receive

variable (workers : List WorkerInfo) (model : Option ModelMessage) (p : Page)

/-- The message comes through: the loop has been started, or the new graph can be drawn. -/
def Passes : Prop := p.topology.animationId ≠ none ∨ NoController workers

/-- What a message with workers does to the graph and the cards. -/
theorem receive_topology : (receive (some workers) model p).topology = (startAnimation (update workers p.topology)).1 ∧
    (receive (some workers) model p).workers = workers := by
  unfold receive updateWorkers
  rw [Option.elim_some]
  cases h : startAnimation (update workers p.topology) with
  | mk t returns =>
    cases returns with
    | true => cases model <;> exact ⟨rfl, rfl⟩
    | false => exact ⟨rfl, rfl⟩

/-- What it does beside them. -/
theorem receive_shown : ((receive (some workers) model p).count, (receive (some workers) model p).view) =
    if (startAnimation (update workers p.topology)).2 then
      (workers.length, model.elim p.view fun model => updateModelStatus model p.view)
    else (p.count, p.view) := by
  unfold receive updateWorkers
  rw [Option.elim_some]
  cases h : startAnimation (update workers p.topology) with
  | mk t returns =>
    cases returns with
    | true => cases model <;> rfl
    | false => rfl

theorem receive_none : receive none model p =
    { p with view := model.elim p.view fun model => updateModelStatus model p.view } := by
  cases model <;> rfl

theorem passes_iff : (startAnimation (update workers p.topology)).2 = true ↔ Passes workers p := by
  rw [startAnimation_returns, Passes]
  exact or_congr_right (draws_update _ workers)

theorem updateWorkers_returns : (updateWorkers workers p).2 = true ↔ Passes workers p := by
  rw [← passes_iff]
  unfold updateWorkers
  cases h : startAnimation (update workers p.topology) with
  | mk t returns => cases returns <;> rfl

end Receive

/-! ## When the loop goes on -/

/-- The graph can be drawn when no worker has the id of the controller. -/
def Drawable (p : Page) : Prop := p.topology.graph.draws = true ↔ NoController p.workers

/-- The loop goes on, or it is stuck. -/
def Sound (p : Page) : Prop := Drawable p ∧ (Looping p.topology ∨ Stuck p.topology)

/-- A frame finds no worker with the id of the controller. -/
def FrameClean (p : Page) : Event → Prop
  | .frame => NoController p.workers
  | _ => True

instance (p : Page) : ∀ e, Decidable (FrameClean p e)
  | .frame => inferInstanceAs (Decidable (NoController p.workers))
  | .receive .. => isTrue trivial
  | .tabShown => isTrue trivial

theorem sound_init : Sound Page.init := ⟨iff_of_true rfl (fun w hw => by cases hw), .inl rfl⟩

section Steps

variable {p q : Page} {e : Event}

/-- **A step of a looping page** keeps the loop exactly when its frame is clean. -/
theorem looping_step_iff (hd : Drawable p) (h : Looping p.topology) (hs : step p e = some q) :
    Looping q.topology ↔ FrameClean p e := by
  cases e with
  | receive workers model =>
    cases hs
    refine iff_of_true ?_ trivial
    cases workers with
    | none =>
      rw [receive_none]
      exact h
    | some workers =>
      rw [(receive_topology workers model p).1]
      exact looping_startAnimation h
  | frame =>
    obtain ⟨hne, hs⟩ := (Option.ite_none_left_eq_some).mp hs
    cases hs
    exact (looping_frame_iff h hne).trans hd
  | tabShown =>
    cases hs
    exact iff_of_true (looping_startAnimation h) trivial

/-- A stuck page stays stuck, and its graph is not drawn. -/
theorem stuck_step (h : Stuck p.topology) (hs : step p e = some q) :
    Stuck q.topology ∧ q.topology.drawn = p.topology.drawn := by
  cases e with
  | receive workers model =>
    cases hs
    cases workers with
    | none =>
      rw [receive_none]
      exact ⟨h, rfl⟩
    | some workers =>
      have hstuck : Stuck (update workers p.topology) := h
      rw [(receive_topology workers model p).1, startAnimation_of_stuck hstuck]
      exact ⟨h, rfl⟩
  | frame => exact absurd h.1 ((Option.ite_none_left_eq_some).mp hs).1
  | tabShown =>
    cases hs
    show Stuck (startAnimation p.topology).1 ∧ (startAnimation p.topology).1.drawn = _
    rw [startAnimation_of_stuck h]
    exact ⟨h, rfl⟩

theorem drawable_step (hd : Sound p) (hs : step p e = some q) : Drawable q := by
  obtain ⟨hd, hloop⟩ := hd
  cases e with
  | receive workers model =>
    cases hs
    cases workers with
    | none =>
      rw [receive_none]
      exact hd
    | some workers =>
      obtain ⟨htopology, hworkers⟩ := receive_topology workers model p
      rw [Drawable, htopology, hworkers, startAnimation_graph]
      exact draws_update _ workers
  | frame =>
    obtain ⟨hne, hs⟩ := (Option.ite_none_left_eq_some).mp hs
    cases hs
    have hlooping := hloop.resolve_right fun hstuck => hne hstuck.1
    show (frame p.topology).graph.draws = true ↔ _
    rw [frame_graph hlooping hne]
    exact hd
  | tabShown =>
    cases hs
    show (startAnimation p.topology).1.graph.draws = true ↔ _
    rw [startAnimation_graph]
    exact hd

theorem sound_step (h : Sound p) (hs : step p e = some q) : Sound q := by
  refine ⟨drawable_step h hs, ?_⟩
  rcases h.2 with hloop | hstuck
  · by_cases hclean : FrameClean p e
    · exact .inl ((looping_step_iff h.1 hloop hs).mpr hclean)
    · cases e with
      | frame =>
        obtain ⟨hne, hs⟩ := (Option.ite_none_left_eq_some).mp hs
        cases hs
        exact .inr (stuck_frame hloop hne fun hdraws => hclean (h.1.mp hdraws))
      | receive workers model => exact absurd trivial hclean
      | tabShown => exact absurd trivial hclean
  · exact .inr (stuck_step hstuck hs).1

end Steps

/-- **When the graph is redrawn**, over every run of the page: the loop goes on exactly when no frame finds a worker
with the id of the controller. -/
theorem looping_iff (es : List Event) :
    Always step (fun p => Looping p.topology) Page.init es ↔ Meets step FrameClean Page.init es :=
  always_iff_meets (I := Sound) (P := fun p => Looping p.topology) (fun _ _ _ h hs => sound_step h hs)
    (fun _ _ _ h hp hs => looping_step_iff h.1 hp hs) sound_init (show Looping Page.init.topology from rfl) es

/-- **A loop that has ended never starts again**: after any run that leaves the page without its loop, no run draws the
graph, whatever workers it brings. -/
theorem stuck_forever (es es' : List Event) (p q : Page) (hp : exec step Page.init es = some p)
    (hend : ¬Looping p.topology) (hq : exec step p es' = some q) :
    q.topology.drawn = p.topology.drawn ∧ ¬Looping q.topology := by
  have hstuck : Stuck p.topology :=
    (exec_invariant (fun _ _ _ h hs => sound_step h hs) sound_init hp).2.resolve_left hend
  have hrun : Stuck q.topology ∧ q.topology.drawn = p.topology.drawn :=
    exec_invariant (I := fun r => Stuck r.topology ∧ r.topology.drawn = p.topology.drawn)
      (fun _ _ _ h hs => (stuck_step h.1 hs).imp_right fun hdrawn => hdrawn.trans h.2) ⟨hstuck, rfl⟩ hq
  refine ⟨hrun.2, fun hloop => hrun.1.2 ?_⟩
  rw [Looping, hrun.1.1] at hloop
  exact Option.toList_eq_nil_iff.mp hloop.symm

/-- A frame finds a worker called `controller`, -/
def lastFrame : List Event :=
  [.receive (some []) none, .receive (some [manualWorker 0 "10.0.0.2" 50052 "controller"]) none, .frame]

/-- the worker is removed, and the tab of the graph is shown again. -/
def tooLate : List Event := [.receive (some []) none, .tabShown]

theorem stuck_forever_removed : ∃ p q, exec step Page.init lastFrame = some p ∧ exec step p tooLate = some q ∧
    q.topology.drawn = p.topology.drawn ∧ ¬Looping q.topology :=
  ⟨_, _, rfl, rfl, stuck_forever lastFrame tooLate _ _ rfl (fun h => by cases h) rfl⟩

/-! ## What is shown beside the graph -/

/-- The status that the messages tell, whatever becomes of the graph. -/
def Event.tell (told : ModelView) : Event → ModelView
  | .receive _ (some model) => updateModelStatus model told
  | _ => told

/-- The page, with the status that it has been told. -/
def toldStep (x : Page × ModelView) (e : Event) : Option (Page × ModelView) :=
  (step x.1 e).map fun q => (q, e.tell x.2)

/-- The page shows how many workers it has, and the status that it has been told. -/
def UpToDate (x : Page × ModelView) : Prop := x.1.count = x.1.workers.length ∧ x.1.view = x.2

/-- A message comes through, or it changes neither the count nor the status. -/
def PassesOrSame (x : Page × ModelView) : Event → Prop
  | .receive (some workers) model =>
    Passes workers x.1 ∨ (x.1.count = workers.length ∧ x.1.view = (Event.receive (some workers) model).tell x.2)
  | _ => True

theorem tell_receive (workers : Option (List WorkerInfo)) (model : Option ModelMessage) (told : ModelView) :
    (Event.receive workers model).tell told = model.elim told fun model => updateModelStatus model told := by
  cases model <;> rfl

/-- **A step of a page that is up to date.** -/
theorem upToDate_step_iff {x y : Page × ModelView} {e : Event} (h : UpToDate x) (hs : toldStep x e = some y) :
    UpToDate y ↔ PassesOrSame x e := by
  obtain ⟨q, hq, rfl⟩ := Option.map_eq_some_iff.mp hs
  obtain ⟨p, told⟩ := x
  obtain ⟨hcount, hview⟩ : p.count = p.workers.length ∧ p.view = told := h
  cases e with
  | receive workers model =>
    cases hq
    cases workers with
    | none =>
      refine iff_of_true ?_ trivial
      rw [receive_none, tell_receive]
      exact ⟨hcount, by rw [← hview]⟩
    | some workers =>
      have hshown := receive_shown workers model p
      have hworkers := (receive_topology workers model p).2
      simp only [UpToDate, PassesOrSame, hworkers, tell_receive]
      by_cases hpass : Passes workers p
      · rw [if_pos ((passes_iff workers p).mpr hpass), Prod.mk.injEq] at hshown
        refine iff_of_true ⟨hshown.1, hshown.2.trans ?_⟩ (.inl hpass)
        rw [← hview]
      · rw [if_neg fun hreturns => hpass ((passes_iff workers p).mp hreturns), Prod.mk.injEq] at hshown
        rw [hshown.1, hshown.2]
        exact (or_iff_right hpass).symm
  | frame =>
    obtain ⟨_, hq⟩ := (Option.ite_none_left_eq_some).mp hq
    cases hq
    exact iff_of_true ⟨hcount, hview⟩ trivial
  | tabShown =>
    cases hq
    exact iff_of_true ⟨hcount, hview⟩ trivial

/-- **When the page shows what it is told**, over every run: every message with workers comes through, because the loop
has been started or no worker has the id of the controller, or it brings nothing new. -/
theorem upToDate_iff (es : List Event) :
    Always toldStep UpToDate (Page.init, freshView) es ↔ Meets toldStep PassesOrSame (Page.init, freshView) es :=
  always_iff_meets (I := fun _ => True) (fun _ _ _ _ _ => trivial) (fun _ _ _ _ hp hs => upToDate_step_iff hp hs)
    trivial ⟨rfl, rfl⟩ es

end LaManchaland.Ui.Animation
