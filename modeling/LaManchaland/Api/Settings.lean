import LaManchaland.Api.Model
import LaManchaland.Lib.Writes

/-!
# The settings under concurrent requests

The paths of the API server and the settings of the manager are cells (`Cell`), and every section of the model handler
writes them blindly (`values_run`): after any run they are the initial ones under the writes of the log
(`values_exec`). So what interleaved requests leave is decided by who wrote each cell last.

`serialisable_iff`: two settings requests leave the outcome of a serial order exactly when one of them is the last to
write every cell that they contest.
-/

namespace LaManchaland.Api

open Runs Sections
open Writes (Store Write apply latest store lastWriter)
open Llmserver (Setting Machine)

/-! ## The cells -/

inductive Cell where
  | apiModelPath
  | apiMMProjPath
  | modelPath
  | mmprojPath
  | ctxSize
  | nGPU
  | nThreads
  | nPredict
  deriving DecidableEq

def Cell.Val : Cell → Type
  | .apiModelPath | .apiMMProjPath | .modelPath | .mmprojPath => String
  | .ctxSize | .nGPU | .nThreads | .nPredict => Int

/-- The values of the cells. -/
def values (c : Controller) : Store Cell.Val
  | .apiModelPath => c.api.modelPath
  | .apiMMProjPath => c.api.mmprojPath
  | .modelPath => c.llm.srv.modelPath
  | .mmprojPath => c.llm.srv.mmprojPath
  | .ctxSize => c.llm.srv.ctxSize
  | .nGPU => c.llm.srv.nGPU
  | .nThreads => c.llm.srv.nThreads
  | .nPredict => c.llm.srv.nPredict

/-- What a setter writes. -/
def settingWrite : Setting → Write Cell.Val
  | .setModelPath path, .modelPath => some path
  | .setMMProjPath path, .mmprojPath => some path
  | .setCtxSize size, .ctxSize => some size
  | .setNGPU n, .nGPU => some n
  | .setThreads n, .nThreads => some n
  | .setNPredict n, .nPredict => some n
  | _, _ => none

/-- What a section writes. -/
def Section.write : Section → Write Cell.Val
  | .setPaths path _, .apiModelPath => some path
  | .setPaths _ mmproj, .apiMMProjPath => if mmproj ≠ "" then some mmproj else none
  | .set f, x => settingWrite f x
  | .clearModel, .apiModelPath => some ""
  | .clearModel, .apiMMProjPath => some ""
  | _, _ => none

/-- A change of the manager that leaves its settings alone writes no cell. -/
theorem values_llm {c : Controller} {m : Machine} (h : m.srv.settings = c.llm.srv.settings) :
    values { c with llm := m } = values c := by
  have same : ∀ {α : Type} (f : Llmserver.Server → α), (∀ s : Llmserver.Server, f s.settings = f s) →
      f m.srv = f c.llm.srv := fun f hf => Llmserver.Server.settings_congr h f hf
  funext x
  cases x with
  | apiModelPath => rfl
  | apiMMProjPath => rfl
  | modelPath => exact same (·.modelPath) fun _ => rfl
  | mmprojPath => exact same (·.mmprojPath) fun _ => rfl
  | ctxSize => exact same (·.ctxSize) fun _ => rfl
  | nGPU => exact same (·.nGPU) fun _ => rfl
  | nThreads => exact same (·.nThreads) fun _ => rfl
  | nPredict => exact same (·.nPredict) fun _ => rfl

/-- **Every section writes blindly.** -/
theorem values_run (o : Outside) (a : Section) (c : Controller) :
    values (a.run o c).1 = apply a.write (values c) := by
  cases a with
  | setPaths path mmproj =>
    funext x
    cases x with
    | apiMMProjPath =>
      by_cases h : mmproj = ""
      · simp only [values, Section.run, Section.write, setPaths, apply, h, ne_eq, not_true_eq_false, if_false]
        rfl
      · simp only [values, Section.run, Section.write, setPaths, apply, h, ne_eq, not_false_eq_true, if_true]
        rfl
    | _ => rfl
  | set f => funext x; cases f <;> cases x <;> rfl
  | clearModel => funext x; cases x <;> rfl
  | start => exact values_llm (Llmserver.start_settings o.env c.llm)
  | stop => exact values_llm (Llmserver.stopLocked_settings c.llm)
  | _ => funext x; cases x <;> rfl

section Exec

variable {s t : Sys}

/-- What happens to the children writes no cell. -/
theorem values_step {c : Controller} {l : Label}
    (h : values s.pool.state = store (s.pool.log.map fun e => e.sect.write) (values c)) (hs : step s l = some t) :
    values t.pool.state = store (t.pool.log.map fun e => e.sect.write) (values c) := by
  rcases step_cases hs with ⟨r, _, rfl⟩ | ⟨o, i, _, hp, _⟩ | ⟨i, m, hm, rfl⟩
  · exact h
  · exact Writes.view_advance (values_run o) hp h
  · refine (values_llm ?_).trans h
    rcases hm with ⟨_, hm⟩ | ⟨_, hm⟩
    · obtain ⟨_, _, _, rfl⟩ := Llmserver.exit_some hm
      rfl
    · obtain ⟨_, _, _, _, rfl⟩ := Llmserver.update_some hm
      rfl

/-- **The cells of every run** are the initial ones after the writes of the log. -/
theorem values_exec {c : Controller} {ls : List Label} (h : exec step (Sys.init c) ls = some s) :
    values s.pool.state = store (s.pool.log.map fun e => e.sect.write) (values c) :=
  exec_invariant (I := fun s => values s.pool.state = store (s.pool.log.map fun e => e.sect.write) (values c))
    (fun _ _ _ => values_step) rfl h

end Exec

/-! ## Two settings requests -/

/-- A request without an action. -/
def ModelPost.SettingsOnly (req : ModelPost) : Prop := req.isLoad = false ∧ req.isUnload = false

instance (req : ModelPost) : Decidable req.SettingsOnly := inferInstanceAs (Decidable (_ ∧ _))

/-- What a request writes to the cells. -/
def ModelPost.written (req : ModelPost) : Write Cell.Val
  | .apiModelPath => some req.path
  | .apiMMProjPath => if req.mmproj ≠ "" then some req.mmproj else none
  | .modelPath => some req.path
  | .mmprojPath => some req.mmproj
  | .ctxSize => if 0 < req.ctxSize then some req.ctxSize else none
  | .nGPU => if req.nGPULayers ≠ 0 then some req.nGPULayers else none
  | .nThreads => if 0 < req.threads then some req.threads else none
  | .nPredict => if 0 < req.nPredict then some req.nPredict else none

/-- Both requests write the cell, and not the same value. -/
def Contest (r₁ r₂ : ModelPost) (x : Cell) : Prop :=
  ∃ v v', r₁.written x = some v ∧ r₂.written x = some v' ∧ v ≠ v'

/-- The thread that wrote the cell last. -/
def lastToWrite (log : List (Event Tag Section)) (x : Cell) : Option Nat :=
  lastWriter Event.thread (fun e => e.sect.write) log x

theorem latest_when (b : Bool) (a : Section) (x : Cell) :
    latest ((when b a).map Section.write).reverse x = if b then a.write x else none := by
  cases b with
  | true => simp [when, latest]
  | false => rfl

section Concurrent

variable {c : Controller} {r₁ r₂ req : ModelPost} {s t : Sys}

/-- The handler writes what the request says. -/
theorem latest_handler (req : ModelPost) (x : Cell) :
    latest ((handleModelPost req).map Section.write).reverse x = req.written x := by
  have hunload : latest ((if req.isUnload then [Section.stop, .clearLoaded, .broadcast] else []).map
      Section.write).reverse x = none := by
    split <;> cases x <;> rfl
  have hload : latest ((when req.isLoad .goLoad).map Section.write).reverse x = none := by
    rw [latest_when]
    split <;> cases x <;> rfl
  rw [handleModelPost, List.map_append, List.reverse_append, Writes.latest_append, hunload, List.map_append,
    List.reverse_append, Writes.latest_append, hload]
  simp only [List.map_append, List.reverse_append, Writes.latest_append, latest_when]
  cases x <;> simp [latest, Section.write, settingWrite, ModelPost.written]

/-- A request that is handled alone leaves the writes of its handler. -/
theorem values_handle (o : Outside) (r : ModelRequest) (c : Controller) :
    values (r.handle o c) = store (r.handler.map Section.write).reverse (values c) :=
  Writes.view_runAll (values_run o) r.handler c fun a ha c => handler_goes_on o ⟨0, r, false⟩ rfl a ha c

/-- A POST leaves what it says. -/
theorem values_post (o : Outside) (req : ModelPost) (c : Controller) :
    values ((ModelRequest.post (some req)).handle o c) = apply req.written (values c) := by
  rw [values_handle]
  funext x
  show (latest ((handleModelPost req).map Section.write).reverse x).getD (values c x) = _
  rw [latest_handler]
  rfl

/-- The handler of a settings request starts no goroutine. -/
theorem spawns_settingsOnly (h : req.SettingsOnly) {k : Nat} {a : Section}
    (ha : a ∈ program ⟨k, .post (some req), false⟩) : spawns ⟨k, .post (some req), false⟩ a = [] := by
  cases a with
  | goLoad =>
    have ha : .goLoad ∈ (ModelRequest.post (some req)).handler := ha
    obtain ⟨req', hreq, hl⟩ := goLoad_mem_handler ha
    cases hreq
    rw [h.1] at hl
    cases hl
  | _ => rfl

/-- The controller with two requests that have arrived, and nothing else under way. -/
structure Pair (r₁ r₂ : ModelPost) (s : Sys) : Prop where
  traced : WellTraced s
  tags : s.pool.threads.map Thread.tag = [⟨0, .post (some r₁), false⟩, ⟨1, .post (some r₂), false⟩]

/-- The handlers of settings requests stay alone. -/
theorem pair_step (h₁ : r₁.SettingsOnly) (h₂ : r₂.SettingsOnly) {l : Label} (hl : ∀ r, l ≠ .arrive r)
    (h : Pair r₁ r₂ s) (hs : step s l = some t) : Pair r₁ r₂ t := by
  refine ⟨wellTraced_step h.traced hs, ?_⟩
  rcases step_cases hs with ⟨r, hr, _⟩ | ⟨o, i, _, hp, _⟩ | ⟨i, m, _, rfl⟩
  · exact absurd hr (hl r)
  · obtain ⟨tag, a, rest, hi, htags⟩ := advance_tags hp
    have hmem := List.mem_of_getElem? hi
    have ha : a ∈ program tag := (h.traced.traced.suffix _ hmem).subset List.mem_cons_self
    have htag : tag ∈ s.pool.threads.map Thread.tag := List.mem_map.mpr ⟨_, hmem, rfl⟩
    have hnone : spawns tag a = [] := by
      rw [h.tags] at htag
      rcases List.mem_cons.mp htag with rfl | htag
      · exact spawns_settingsOnly h₁ ha
      · rw [List.mem_singleton] at htag
        subst htag
        exact spawns_settingsOnly h₂ ha
    rw [htags, hnone, List.append_nil]
    exact h.tags
  · exact h.tags

/-- The thread of a finished pair has run its handler. -/
theorem Pair.thread (h : Pair r₁ r₂ t) {i : Nat} {req : ModelPost}
    (hi : (t.pool.threads.map Thread.tag)[i]? = some ⟨i, .post (some req), false⟩) (hf : t.pool.Finished) :
    done i t.pool.log = handleModelPost req := by
  rw [List.getElem?_map, Option.map_eq_some_iff] at hi
  obtain ⟨th, hth, ht⟩ := hi
  have := h.traced.traced.done_of_finished hf hth (by rw [ht])
  rw [this, ht]
  rfl

/-- The writes of one thread, from what it has run. -/
theorem side_thread (log : List (Event Tag Section)) (i : Nat) :
    Writes.side Event.thread (fun e => e.sect.write) i log = ((done i log).map Section.write).reverse := by
  simp [Writes.side, done, Function.comp_def]

/-- A run after the arrival of two settings requests. -/
theorem pair_exec (h₁ : r₁.SettingsOnly) (h₂ : r₂.SettingsOnly) {ls : List Label} (hls : ∀ r, .arrive r ∉ ls)
    (h : exec step (Sys.init c) (.arrive (.post (some r₁)) :: .arrive (.post (some r₂)) :: ls) = some t) :
    Pair r₁ r₂ t := by
  obtain ⟨s₁, hs₁, h⟩ := exec_cons_some h
  obtain ⟨s₂, hs₂, h⟩ := exec_cons_some h
  have hs₂' : Pair r₁ r₂ s₂ := by
    refine ⟨wellTraced_step (wellTraced_step (wellTraced_init c) hs₁) hs₂, ?_⟩
    cases hs₁
    cases hs₂
    rfl
  have hmeets : Meets step (fun _ l => ∀ r, l ≠ .arrive r) s₂ ls := by
    refine Meets.of_forall s₂ fun l hl r => ?_
    rintro rfl
    exact hls r hl
  exact hmeets.last (fun _ _ _ hp hl hs => pair_step h₁ h₂ hl hp hs) hs₂' h

/-- **When two settings requests are serialisable**: after every interleaving of their sections, the cells have the
values of one of the two serial orders exactly when one of the requests is the last to write every contested cell. -/
theorem serialisable_iff (h₁ : r₁.SettingsOnly) (h₂ : r₂.SettingsOnly) {ls : List Label} (hls : ∀ r, .arrive r ∉ ls)
    (h : exec step (Sys.init c) (.arrive (.post (some r₁)) :: .arrive (.post (some r₂)) :: ls) = some t)
    (hf : t.pool.Finished) (o : Outside) :
    (values t.pool.state = values ((ModelRequest.post (some r₂)).handle o ((ModelRequest.post (some r₁)).handle o c)) ∨
      values t.pool.state =
        values ((ModelRequest.post (some r₁)).handle o ((ModelRequest.post (some r₂)).handle o c))) ↔
    (∀ x, Contest r₁ r₂ x → lastToWrite t.pool.log x = some 1) ∨
      ∀ x, Contest r₁ r₂ x → lastToWrite t.pool.log x = some 0 := by
  have hp : Pair r₁ r₂ t := pair_exec h₁ h₂ hls h
  have hside₀ : Writes.side Event.thread (fun e => e.sect.write) 0 t.pool.log =
      ((handleModelPost r₁).map Section.write).reverse := by
    rw [side_thread, hp.thread (i := 0) (by rw [hp.tags]; rfl) hf]
  have hside₁ : Writes.side Event.thread (fun e => e.sect.write) 1 t.pool.log =
      ((handleModelPost r₂).map Section.write).reverse := by
    rw [side_thread, hp.thread (i := 1) (by rw [hp.tags]; rfl) hf]
  have hthread : ∀ e ∈ t.pool.log, e.thread = 0 ∨ e.thread = 1 := by
    intro e he
    obtain ⟨th, hth, _⟩ := hp.traced.traced.logged e he
    have hlt := (List.getElem?_eq_some_iff.mp hth).1
    have hlen := congrArg List.length hp.tags
    simp only [List.length_map, List.length_cons, List.length_nil] at hlen
    omega
  have hcontest : ∀ x, Writes.Contested ((handleModelPost r₁).map Section.write).reverse
      ((handleModelPost r₂).map Section.write).reverse x ↔ Contest r₁ r₂ x := by
    intro x
    simp only [Writes.Contested, Contest, latest_handler]
  have h01 := Writes.store_serial_iff Event.thread (fun e => e.sect.write) hthread (values c)
  have h10 := Writes.store_serial_iff Event.thread (fun e => e.sect.write) (fun e he => (hthread e he).symm) (values c)
  rw [hside₀, hside₁] at h01 h10
  rw [values_exec h, values_handle, values_handle, values_handle, values_handle]
  refine (or_congr h01 h10).trans ?_
  refine or_congr (forall_congr' fun x => ?_) (forall_congr' fun x => ?_)
  · rw [hcontest]
    rfl
  · refine imp_congr ⟨fun hx => (hcontest x).mp hx.symm, fun hx => ((hcontest x).mpr hx).symm⟩ Iff.rfl

end Concurrent

/-- A request that only names a path. -/
def pathRequest (path : String) : ModelPost := ⟨path, "", "", 0, 0, 0, 0⟩

/-- The controller with an empty registry and a manager on port 8081. -/
def idleController : Controller := emptyController (Llmserver.init 8081)

/-- Both requests arrive; the first writes the path of the API server, the second both paths, the first the path of the
manager. -/
def mixedRun : List Label :=
  [.arrive (.post (some (pathRequest "/a.gguf"))), .arrive (.post (some (pathRequest "/b.gguf"))),
    .advance outsideUp 0, .advance outsideUp 1, .advance outsideUp 1, .advance outsideUp 1, .advance outsideUp 0,
    .advance outsideUp 0]

theorem serialisable_iff_mixed : ∃ t, exec step (Sys.init idleController) mixedRun = some t ∧
    ((values t.pool.state = values ((ModelRequest.post (some (pathRequest "/b.gguf"))).handle outsideUp
          ((ModelRequest.post (some (pathRequest "/a.gguf"))).handle outsideUp idleController)) ∨
        values t.pool.state = values ((ModelRequest.post (some (pathRequest "/a.gguf"))).handle outsideUp
          ((ModelRequest.post (some (pathRequest "/b.gguf"))).handle outsideUp idleController))) ↔
      (∀ x, Contest (pathRequest "/a.gguf") (pathRequest "/b.gguf") x → lastToWrite t.pool.log x = some 1) ∨
        ∀ x, Contest (pathRequest "/a.gguf") (pathRequest "/b.gguf") x → lastToWrite t.pool.log x = some 0) := by
  have hls : ∀ r, .arrive r ∉ mixedRun.drop 2 := by simp [mixedRun]
  exact ⟨_, rfl, serialisable_iff (by decide) (by decide) hls rfl (by decide) outsideUp⟩

/-- After `mixedRun` the API server shows one path and the manager would launch the other. -/
theorem settings_mixed : ¬∀ (c : Controller) (r₁ r₂ : ModelPost) (ls : List Label) (t : Sys) (o : Outside),
    r₁.SettingsOnly → r₂.SettingsOnly → (∀ r, .arrive r ∉ ls) →
    exec step (Sys.init c) (.arrive (.post (some r₁)) :: .arrive (.post (some r₂)) :: ls) = some t →
    t.pool.Finished →
    values t.pool.state = values ((ModelRequest.post (some r₂)).handle o ((ModelRequest.post (some r₁)).handle o c)) ∨
      values t.pool.state =
        values ((ModelRequest.post (some r₁)).handle o ((ModelRequest.post (some r₂)).handle o c)) := by
  intro h
  rcases h idleController (pathRequest "/a.gguf") (pathRequest "/b.gguf") (mixedRun.drop 2) _ outsideUp (by decide)
    (by decide) (by simp [mixedRun]) rfl (by decide) with he | he
  · have hmodel : "/a.gguf" = "/b.gguf" := congrFun he Cell.modelPath
    exact absurd hmodel (by decide)
  · have hapi : "/b.gguf" = "/a.gguf" := congrFun he Cell.apiModelPath
    exact absurd hapi (by decide)

end LaManchaland.Api
