import LaManchaland.Api.Server
import LaManchaland.Lib.Sections

/-!
# The model handler and its load goroutine

`handleModel` runs a list of sections, each atomic under `s.mu` of the API server or of the manager
(`handleModelPost`, `handleModelDelete`); a load request starts `loadGoroutine` and is answered before it runs.
`Sys` is the controller with all handlers and goroutines under way, the log of what they have run, and the requests
that have arrived; `step` lets a request arrive, one thread run its next section, or a child of the manager move.

`WellTraced` is what holds of every run (`wellTraced_exec`): the log and the threads agree with the handlers, every
request has its handler, and a load goroutine runs for a POST whose path and projector its handler has set.
-/

namespace LaManchaland.Api

open Runs Sections
open Llmserver (Setting Env Machine)

/-! ## The requests -/

/-- The body of `POST /api/model`. -/
structure ModelPost where
  path : String
  mmproj : String
  action : String
  ctxSize : Int
  nGPULayers : Int
  threads : Int
  nPredict : Int
  deriving DecidableEq

/-- The requests that change the state; `none` is a body that does not decode. -/
inductive ModelRequest where
  | post (body : Option ModelPost)
  | delete
  deriving DecidableEq

def ModelPost.isLoad (req : ModelPost) : Bool := req.action = "start" ∨ req.action = "load"

def ModelPost.isUnload (req : ModelPost) : Bool := req.action = "stop" ∨ req.action = "unload"

/-- The answer of `handleModel`. -/
def ModelRequest.response : ModelRequest → Response (List (String × String))
  | .post none => ⟨400, [("error", "invalid request")]⟩
  | .post (some req) => ⟨200, [("status", "ok"), ("path", req.path)]⟩
  | .delete => ⟨200, [("status", "ok")]⟩

/-! ## The sections -/

inductive Section where
  | setPaths (path mmproj : String)
  | set (f : Setting)
  | goLoad
  | copyWorkers
  | start
  | setLoaded
  | stop
  | clearLoaded
  | clearModel
  | broadcast
  deriving DecidableEq

/-- A statement under a condition on the body. -/
def when (b : Bool) (a : Section) : List Section := if b then [a] else []

/-- `handleModel` on a decoded POST. -/
def handleModelPost (req : ModelPost) : List Section :=
  [.setPaths req.path req.mmproj, .set (.setModelPath req.path), .set (.setMMProjPath req.mmproj)]
  ++ when (0 < req.ctxSize) (.set (.setCtxSize req.ctxSize))
  ++ when (req.nGPULayers ≠ 0) (.set (.setNGPU req.nGPULayers))
  ++ when (0 < req.threads) (.set (.setThreads req.threads))
  ++ when (0 < req.nPredict) (.set (.setNPredict req.nPredict))
  ++ when req.isLoad .goLoad
  ++ if req.isUnload then [.stop, .clearLoaded, .broadcast] else []

/-- `handleModel` on DELETE. -/
def handleModelDelete : List Section := [.stop, .clearModel, .broadcast]

/-- The goroutine of a load request; a failing `Start` ends it. -/
def loadGoroutine : List Section := [.copyWorkers, .start, .setLoaded, .broadcast]

def ModelRequest.handler : ModelRequest → List Section
  | .post none => []
  | .post (some req) => handleModelPost req
  | .delete => handleModelDelete

/-- What the outside answers during a section. -/
structure Outside where
  env : Env
  writeFails : Nat → Bool

/-- The binary is there, the server is healthy and every write succeeds. -/
def outsideUp : Outside := ⟨Llmserver.envUp, fun _ => false⟩

/-- A section, and whether its thread goes on. -/
def Section.run (o : Outside) (a : Section) (c : Controller) : Controller × Bool :=
  match a with
  | .setPaths path mmproj => (Api.setPaths c path mmproj, true)
  | .set f => ({ c with llm := Llmserver.set f c.llm }, true)
  | .goLoad => (c, true)
  | .copyWorkers => (Api.copyWorkers c, true)
  | .start => ({ c with llm := (Llmserver.start o.env c.llm).1 }, (Llmserver.start o.env c.llm).2.isNone)
  | .setLoaded => (Api.setLoaded c true, true)
  | .stop => ({ c with llm := Llmserver.stop c.llm }, true)
  | .clearLoaded => (Api.setLoaded c false, true)
  | .clearModel => (Api.clearModel c, true)
  | .broadcast => (broadcastUpdate c o.writeFails, true)

/-- A request that is handled while nothing else runs; the goroutine of a load is not part of it. -/
def ModelRequest.handle (o : Outside) (r : ModelRequest) (c : Controller) : Controller :=
  runAll (Section.run o) r.handler c

/-! ## The controller with its threads -/

/-- A thread: the number of its request, the request, and whether it is the load goroutine or the handler. -/
structure Tag where
  id : Nat
  request : ModelRequest
  background : Bool
  deriving DecidableEq

def program (t : Tag) : List Section := if t.background then loadGoroutine else t.request.handler

/-- The handler starts the load goroutine. -/
def spawns (t : Tag) : Section → List Tag
  | .goLoad => [{ t with background := true }]
  | _ => []

structure Sys where
  pool : Pool Controller Tag Section
  requests : List ModelRequest

inductive Label where
  | arrive (r : ModelRequest)
  | advance (o : Outside) (i : Nat)
  | exit (i : Nat)
  | update (i : Nat)

/-- The state of the manager changes on its own. -/
def Sys.withLlm (s : Sys) (m : Machine) : Sys :=
  { s with pool := { s.pool with state := { s.pool.state with llm := m } } }

def step (s : Sys) : Label → Option Sys
  | .arrive r => some ⟨arrive program ⟨s.requests.length, r, false⟩ s.pool, s.requests ++ [r]⟩
  | .advance o i => (advance program spawns (Section.run o) i s.pool).map fun p => { s with pool := p }
  | .exit i => (Llmserver.exit i s.pool.state.llm).map s.withLlm
  | .update i => (Llmserver.update i s.pool.state.llm).map s.withLlm

/-- The controller before the first request. -/
def Sys.init (c : Controller) : Sys := ⟨Pool.init c, []⟩

/-! ## What holds of every run -/

/-- The threads and the log agree with the requests. -/
structure WellTraced (s : Sys) : Prop where
  traced : Traced program (fun t => t.background = false) s.pool
  request : ∀ th ∈ s.pool.threads, s.requests[th.tag.id]? = some th.tag.request
  handler : ∀ k r, s.requests[k]? = some r → ∃ th ∈ s.pool.threads, th.tag = ⟨k, r, false⟩
  load : ∀ th ∈ s.pool.threads, th.tag.background = true → ∃ req, th.tag.request = .post (some req) ∧
    (∃ e ∈ s.pool.log, e.sect = .set (.setModelPath req.path)) ∧
    ∃ e ∈ s.pool.log, e.sect = .set (.setMMProjPath req.mmproj)

section WellTraced

variable {s t : Sys}

theorem mem_when {a : Section} {b : Bool} {x : Section} : x ∈ when b a ↔ b = true ∧ x = a := by
  cases b <;> simp [when]

/-- No handler copies the workers, calls `Start` or sets the flag; the goroutine of a load does. -/
theorem background_of_mem {t : Tag} {a : Section} (ha : a ∈ [.copyWorkers, .start, .setLoaded]) (h : a ∈ program t) :
    t.background = true := by
  obtain ⟨k, r, b⟩ := t
  cases b with
  | true => rfl
  | false =>
    have h : a ∈ r.handler := h
    simp only [List.mem_cons, List.not_mem_nil, or_false] at ha
    cases r with
    | delete => rcases ha with rfl | rfl | rfl <;> simp [ModelRequest.handler, handleModelDelete] at h
    | post body =>
      cases body with
      | none => cases h
      | some req =>
        simp only [ModelRequest.handler, handleModelPost, List.mem_append, mem_when] at h
        split at h <;> rcases ha with rfl | rfl | rfl <;> simp at h

/-- Only `Start` can end its thread. -/
theorem Section.run_goes_on {o : Outside} {a : Section} (ha : a ≠ .start) (c : Controller) : (a.run o c).2 = true := by
  cases a <;> first | rfl | exact absurd rfl ha

/-- A handler runs to its end. -/
theorem handler_goes_on (o : Outside) (t : Tag) (ht : t.background = false) (a : Section) (ha : a ∈ program t)
    (c : Controller) : (a.run o c).2 = true := by
  refine Section.run_goes_on ?_ c
  rintro rfl
  have hb := background_of_mem (by simp) ha
  rw [ht] at hb
  cases hb

/-- Only a load request starts a goroutine. -/
theorem goLoad_mem_handler {r : ModelRequest} (h : .goLoad ∈ r.handler) :
    ∃ req, r = .post (some req) ∧ req.isLoad = true := by
  cases r with
  | delete => simp [ModelRequest.handler, handleModelDelete] at h
  | post body =>
    cases body with
    | none => simp [ModelRequest.handler] at h
    | some req =>
      refine ⟨req, rfl, ?_⟩
      simp only [ModelRequest.handler, handleModelPost, List.mem_append, mem_when] at h
      split at h <;> simpa using h

theorem goLoad_not_mem_loadGoroutine : .goLoad ∉ loadGoroutine := by decide

/-- **What a step can do.** -/
theorem step_cases {l : Label} (h : step s l = some t) :
    (∃ r, l = .arrive r ∧
      t = ⟨Sections.arrive program ⟨s.requests.length, r, false⟩ s.pool, s.requests ++ [r]⟩) ∨
    (∃ o i, l = .advance o i ∧ advance program spawns (Section.run o) i s.pool = some t.pool ∧
      t.requests = s.requests) ∨
    (∃ i m, (l = .exit i ∧ Llmserver.exit i s.pool.state.llm = some m ∨
      l = .update i ∧ Llmserver.update i s.pool.state.llm = some m) ∧ t = s.withLlm m) := by
  cases l with
  | arrive r => cases h; exact .inl ⟨r, rfl, rfl⟩
  | advance o i =>
    obtain ⟨p, hp, rfl⟩ := Option.map_eq_some_iff.mp h
    exact .inr (.inl ⟨o, i, rfl, hp, rfl⟩)
  | exit i =>
    obtain ⟨m, hm, rfl⟩ := Option.map_eq_some_iff.mp h
    exact .inr (.inr ⟨i, m, .inl ⟨rfl, hm⟩, rfl⟩)
  | update i =>
    obtain ⟨m, hm, rfl⟩ := Option.map_eq_some_iff.mp h
    exact .inr (.inr ⟨i, m, .inr ⟨rfl, hm⟩, rfl⟩)

/-- A thread that a section starts is the load goroutine of the same request. -/
theorem mem_spawns {t' tag : Tag} {a : Section} (h : t' ∈ spawns tag a) :
    a = .goLoad ∧ t' = { tag with background := true } := by
  cases a with
  | goLoad => exact ⟨rfl, List.mem_singleton.mp h⟩
  | _ => cases h

theorem wellTraced_init (c : Controller) : WellTraced (Sys.init c) := by
  refine ⟨traced_init c, fun th hth => ?_, fun k r hr => ?_, fun th hth => ?_⟩
  · cases hth
  · cases hr
  · cases hth

theorem wellTraced_arrive (h : WellTraced s) (r : ModelRequest) :
    WellTraced ⟨Sections.arrive program ⟨s.requests.length, r, false⟩ s.pool, s.requests ++ [r]⟩ := by
  refine ⟨traced_arrive h.traced _, fun th hth => ?_, fun k r' hr => ?_, fun th hth hb => ?_⟩
  · rcases List.mem_append.mp hth with hth | hth
    · have hr := h.request th hth
      have hlt := (List.getElem?_eq_some_iff.mp hr).1
      rw [List.getElem?_append_left hlt, hr]
    · rw [List.mem_singleton.mp hth]
      simp [fresh]
  · rcases Threads.getElem?_snoc hr with hr | ⟨rfl, rfl⟩
    · obtain ⟨th, hth, ht⟩ := h.handler k r' hr
      exact ⟨th, List.mem_append_left _ hth, ht⟩
    · exact ⟨_, List.mem_append_right _ (List.mem_singleton.mpr rfl), rfl⟩
  · rcases List.mem_append.mp hth with hth | hth
    · exact h.load th hth hb
    · rw [List.mem_singleton.mp hth] at hb
      cases hb

/-- The goroutine of a load starts after its handler has set both paths. -/
theorem load_of_goLoad (h : WellTraced s) {i : Nat} {tag : Tag} {rest : List Section}
    (hi : s.pool.threads[i]? = some ⟨tag, .goLoad :: rest⟩) : ∃ req, tag.request = .post (some req) ∧
      (∃ e ∈ s.pool.log, e.sect = .set (.setModelPath req.path)) ∧
      ∃ e ∈ s.pool.log, e.sect = .set (.setMMProjPath req.mmproj) := by
  have hmem : .goLoad ∈ program tag := (h.traced.suffix _ (List.mem_of_getElem? hi)).subset List.mem_cons_self
  have hb : tag.background = false := by
    cases hb : tag.background with
    | false => rfl
    | true =>
      rw [program, hb] at hmem
      exact absurd hmem goLoad_not_mem_loadGoroutine
  rw [program, hb] at hmem
  obtain ⟨req, hreq, _⟩ := goLoad_mem_handler hmem
  have hprog : ∃ post, program tag =
      [.setPaths req.path req.mmproj, .set (.setModelPath req.path), .set (.setMMProjPath req.mmproj)] ++ post := by
    rw [program, hb, hreq]
    simp only [ModelRequest.handler, handleModelPost, List.append_assoc]
    exact ⟨_, rfl⟩
  obtain ⟨post, hprog⟩ := hprog
  have ran : ∀ b ∈ [Section.setPaths req.path req.mmproj, .set (.setModelPath req.path),
      .set (.setMMProjPath req.mmproj)], ∃ e ∈ s.pool.log, e.sect = b := by
    intro b hbm
    obtain ⟨e, he, _, hs⟩ := mem_done.mp (h.traced.mem_done_of_before hi hb hprog (by simp) hbm)
    exact ⟨e, he, hs⟩
  exact ⟨req, hreq, ran _ (by simp), ran _ (by simp)⟩

theorem wellTraced_advance (h : WellTraced s) {o : Outside} {i : Nat} {p : Pool Controller Tag Section}
    (hp : advance program spawns (Section.run o) i s.pool = some p) : WellTraced ⟨p, s.requests⟩ := by
  have htraced := traced_advance (fun t ht a ha c => handler_goes_on o t ht a ha c) h.traced hp
  obtain ⟨tag, a, rest, hi, _, hts, hlog⟩ := advance_some hp
  have hmem := List.mem_of_getElem? hi
  -- the tag of a thread is one from before, or that of a goroutine which the moving handler starts
  have old : ∀ th ∈ p.threads, (∃ th' ∈ s.pool.threads, th'.tag = th.tag) ∨
      (a = .goLoad ∧ th.tag = { tag with background := true }) := by
    intro th hth
    obtain ⟨j, hj⟩ := List.mem_iff_getElem?.mp hth
    rw [hts] at hj
    rcases getElem?_advance hj with ⟨_, rfl⟩ | ⟨_, hj⟩ | ⟨_, t, ht, rfl⟩
    · exact .inl ⟨_, hmem, rfl⟩
    · exact .inl ⟨th, List.mem_of_getElem? hj, rfl⟩
    · exact .inr (mem_spawns ht)
  have later : ∀ {x : Section}, (∃ e ∈ s.pool.log, e.sect = x) → ∃ e ∈ p.log, e.sect = x := by
    rintro x ⟨e, he, hx⟩
    rw [hlog]
    exact ⟨e, List.mem_cons_of_mem _ he, hx⟩
  refine ⟨htraced, fun th hth => ?_, fun k r hr => ?_, fun th hth hb => ?_⟩
  · rcases old th hth with ⟨th', hth', ht⟩ | ⟨_, ht⟩
    · rw [← ht]
      exact h.request th' hth'
    · rw [ht]
      exact h.request _ hmem
  · obtain ⟨th, hth, ht⟩ := h.handler k r hr
    obtain ⟨j, hj⟩ := List.mem_iff_getElem?.mp hth
    obtain ⟨th', hth', ht'⟩ := advance_tag hp hj
    exact ⟨th', List.mem_of_getElem? hth', ht'.trans ht⟩
  · rcases old th hth with ⟨th', hth', ht⟩ | ⟨rfl, ht⟩
    · obtain ⟨req, hreq, hpath, hmm⟩ := h.load th' hth' (by rw [ht]; exact hb)
      exact ⟨req, by rw [← ht]; exact hreq, later hpath, later hmm⟩
    · obtain ⟨req, hreq, hpath, hmm⟩ := load_of_goLoad h hi
      exact ⟨req, by rw [ht]; exact hreq, later hpath, later hmm⟩

/-- Every step keeps the threads and the log in agreement. -/
theorem wellTraced_step {l : Label} (h : WellTraced s) (hs : step s l = some t) : WellTraced t := by
  rcases step_cases hs with ⟨r, _, rfl⟩ | ⟨o, i, _, hp, hr⟩ | ⟨i, m, _, rfl⟩
  · exact wellTraced_arrive h r
  · have := wellTraced_advance h hp
    rwa [← hr] at this
  · exact ⟨⟨h.traced.suffix, h.traced.done, h.traced.logged, h.traced.sect⟩, h.request, h.handler, h.load⟩

/-- **Every run is well traced**, from any controller. -/
theorem wellTraced_exec {c : Controller} {ls : List Label} (h : exec step (Sys.init c) ls = some s) : WellTraced s :=
  exec_invariant (fun _ _ _ => wellTraced_step) (wellTraced_init c) h

end WellTraced

end LaManchaland.Api
