import LaManchaland.Api.Settings

/-!
# What a load launches

A load goroutine reads the path and the projector from the manager, where its handler has put them. `launchesNamed_iff`:
the child that it launches has the command line of its request exactly when the last requests to set the path and the
projector before the `Start` name the same ones. `load_launches_other`: with two loads, the first can launch the path
of the second.
-/

namespace LaManchaland.Api

open Runs Sections
open Writes (lastWriter latest)
open Llmserver (Setting CanLaunch Child flagValues)

/-- The command line has the path of the request, and its projector when it names one. -/
def Names (req : ModelPost) (argv : List String) : Prop :=
  flagValues "--model" argv = [req.path] ∧ flagValues "--mmproj" argv = if req.mmproj = "" then [] else [req.mmproj]

/-- The request whose section wrote the cell last. -/
def lastRequest (log : List (Event Tag Section)) (x : Cell) : Option ModelRequest :=
  (lastWriter Event.tag (fun e => e.sect.write) log x).map Tag.request

/-- The last request that set the path of the manager names that of `req`, and so for the projector. -/
structure LastNamed (req : ModelPost) (log : List (Event Tag Section)) : Prop where
  path : ∃ q, lastRequest log .modelPath = some (.post (some q)) ∧ q.path = req.path
  mmproj : ∃ q, lastRequest log .mmprojPath = some (.post (some q)) ∧ q.mmproj = req.mmproj

section Launch

variable {c : Controller} {s : Sys} {tag : Tag} {req : ModelPost}

/-- The sections that write the path of the manager. -/
theorem write_modelPath {a : Section} {v : String} (h : a.write .modelPath = some v) : a = .set (.setModelPath v) := by
  cases a with
  | set f =>
    cases f with
    | setModelPath path => cases h; rfl
    | _ => cases h
  | _ => cases h

theorem write_mmprojPath {a : Section} {v : String} (h : a.write .mmprojPath = some v) :
    a = .set (.setMMProjPath v) := by
  cases a with
  | set f =>
    cases f with
    | setMMProjPath path => cases h; rfl
    | _ => cases h
  | _ => cases h

/-- A setter in a program is the one of the request of its thread. -/
theorem set_mem_program {f : Setting} (h : .set f ∈ program tag) : ∃ q, tag.request = .post (some q) ∧
    (∀ v, f = .setModelPath v → v = q.path) ∧ ∀ v, f = .setMMProjPath v → v = q.mmproj := by
  obtain ⟨k, r, b⟩ := tag
  cases b with
  | true => simp [program, loadGoroutine] at h
  | false =>
    cases r with
    | delete => simp [program, ModelRequest.handler, handleModelDelete] at h
    | post body =>
      cases body with
      | none => simp [program, ModelRequest.handler] at h
      | some q =>
        refine ⟨q, rfl, ?_⟩
        simp only [program, ModelRequest.handler, handleModelPost, Bool.false_eq_true, if_false, List.mem_append,
          List.mem_cons, mem_when] at h
        constructor <;> rintro v rfl <;> split at h <;> simpa using h

/-- A cell that only a setter of the handler writes has the value that the last request named. -/
theorem lastRequest_of_set {ls : List Label} (h : exec step (Sys.init c) ls = some s) {x : Cell}
    {f : x.Val → Setting} {named : ModelPost → x.Val} (hwrite : ∀ (a : Section) v, a.write x = some v → a = .set (f v))
    (hnamed : ∀ (tag : Tag) v, .set (f v) ∈ program tag → ∃ q, tag.request = .post (some q) ∧ v = named q)
    (hset : ∃ e ∈ s.pool.log, (e.sect.write x).isSome = true) :
    ∃ q, lastRequest s.pool.log x = some (.post (some q)) ∧ values s.pool.state x = named q := by
  obtain ⟨e, he, hw⟩ := hset
  obtain ⟨t, ht⟩ := Writes.lastWriter_of_mem Event.tag (fun e => e.sect.write) he hw
  obtain ⟨e', he', het, v, hv, hlatest, _⟩ := Writes.latest_of_lastWriter ht
  have hmem : .set (f v) ∈ program e'.tag := by
    rw [← hwrite e'.sect v hv]
    exact (wellTraced_exec h).traced.sect e' he'
  obtain ⟨q, hq, hvq⟩ := hnamed e'.tag v hmem
  refine ⟨q, by rw [lastRequest, ht, Option.map_some, ← het, hq], ?_⟩
  rw [values_exec h, Writes.store, hlatest, ← hvq]
  rfl

/-- The thread that is about to call `Start` is the goroutine of a load. -/
theorem background_of_start (h : WellTraced s) {i : Nat} {rest : List Section}
    (hi : s.pool.threads[i]? = some ⟨tag, .start :: rest⟩) : tag.background = true :=
  background_of_mem (by simp) ((h.traced.suffix _ (List.mem_of_getElem? hi)).subset List.mem_cons_self)

/-- **When a load launches what it named**: in every run of any requests, the child that the `Start` of a load goroutine
launches gets the command line of its request exactly when the last requests to set the path and the projector before
name the same ones. -/
theorem launchesNamed_iff {ls : List Label} (h : exec step (Sys.init c) ls = some s) {i : Nat} {rest : List Section}
    (hi : s.pool.threads[i]? = some ⟨tag, .start :: rest⟩) {o : Outside} (hl : CanLaunch o.env s.pool.state.llm) :
    ∃ t req child, step s (.advance o i) = some t ∧ tag.request = .post (some req) ∧
      t.pool.state.llm.children.getLast? = some child ∧ (Names req child.args ↔ LastNamed req s.pool.log) := by
  have hw := wellTraced_exec h
  obtain ⟨req, hreq, ⟨ep, hep, hpath⟩, ⟨em, hem, hmm⟩⟩ :=
    hw.load _ (List.mem_of_getElem? hi) (background_of_start hw hi)
  obtain ⟨qp, hqp, hvp⟩ := lastRequest_of_set h (x := .modelPath) (fun _ _ => write_modelPath)
    (fun tag v hm => by obtain ⟨q, hq, hp, _⟩ := set_mem_program hm; exact ⟨q, hq, hp v rfl⟩)
    ⟨ep, hep, by rw [hpath]; rfl⟩
  obtain ⟨qm, hqm, hvm⟩ := lastRequest_of_set h (x := .mmprojPath) (fun _ _ => write_mmprojPath)
    (fun tag v hm => by obtain ⟨q, hq, _, hp⟩ := set_mem_program hm; exact ⟨q, hq, hp v rfl⟩)
    ⟨em, hem, by rw [hmm]; rfl⟩
  have hvp : s.pool.state.llm.srv.modelPath = qp.path := hvp
  have hvm : s.pool.state.llm.srv.mmprojPath = qm.mmproj := hvm
  have hstep : ∃ t, step s (.advance o i) = some t ∧
      t.pool.state.llm = (Llmserver.start o.env s.pool.state.llm).1 := by
    simp only [step, advance, hi, Option.map_some]
    exact ⟨_, rfl, rfl⟩
  obtain ⟨t, ht, hllm⟩ := hstep
  refine ⟨t, req, _, ht, hreq, by rw [hllm]; exact Llmserver.start_getLast? hl, ?_⟩
  have hnames : Names req s.pool.state.llm.srv.buildArgs ↔ qp.path = req.path ∧ qm.mmproj = req.mmproj := by
    rw [Names, Llmserver.flagValues_model, Llmserver.flagValues_mmproj, hvp, hvm]
    refine and_congr (by simp) ?_
    by_cases h₁ : qm.mmproj = "" <;> by_cases h₂ : req.mmproj = "" <;> simp [h₁, h₂, eq_comm]
  rw [hnames]
  constructor
  · rintro ⟨hp, hm⟩
    exact ⟨⟨qp, hqp, hp⟩, ⟨qm, hqm, hm⟩⟩
  · rintro ⟨⟨q, hq, hp⟩, ⟨q', hq', hm⟩⟩
    rw [hqp] at hq
    rw [hqm] at hq'
    cases hq
    cases hq'
    exact ⟨hp, hm⟩

end Launch

/-! ## Two loads -/

/-- A load of a path. -/
def loadRequest (path : String) : ModelPost := ⟨path, "", "load", 0, 0, 0, 0⟩

/-- Two loads are handled, and then the goroutine of the first copies the workers. -/
def overtakenRun : List Label :=
  [.arrive (.post (some (loadRequest "/a.gguf"))), .advance outsideUp 0, .advance outsideUp 0, .advance outsideUp 0,
    .advance outsideUp 0, .arrive (.post (some (loadRequest "/b.gguf"))), .advance outsideUp 2, .advance outsideUp 2,
    .advance outsideUp 2, .advance outsideUp 2, .advance outsideUp 1]

theorem launchesNamed_iff_overtaken : ∃ s t req child, exec step (Sys.init idleController) overtakenRun = some s ∧
    step s (.advance outsideUp 1) = some t ∧ ModelRequest.post (some (loadRequest "/a.gguf")) = .post (some req) ∧
    t.pool.state.llm.children.getLast? = some child ∧ (Names req child.args ↔ LastNamed req s.pool.log) := by
  obtain ⟨t, req, child, h⟩ := @launchesNamed_iff idleController _ _ overtakenRun rfl 1 _ rfl outsideUp (by decide)
  exact ⟨_, t, req, child, rfl, h⟩

/-- The first load launches the path of the second. -/
theorem load_launches_other : ¬∀ (c : Controller) (ls : List Label) (s t : Sys) (i : Nat) (req : ModelPost)
    (id : Nat) (rest : List Section) (o : Outside) (child : Child), exec step (Sys.init c) ls = some s →
    s.pool.threads[i]? = some ⟨⟨id, .post (some req), true⟩, .start :: rest⟩ → CanLaunch o.env s.pool.state.llm →
    step s (.advance o i) = some t → t.pool.state.llm.children.getLast? = some child → Names req child.args := by
  intro h
  have hnames := h idleController overtakenRun _ _ 1 (loadRequest "/a.gguf") 0 _ outsideUp _ rfl rfl (by decide) rfl rfl
  have hmodel : ["/b.gguf"] = ["/a.gguf"] := hnames.1
  exact absurd hmodel (by decide)

end LaManchaland.Api
