import LaManchaland.Api.Settings

/-!
# What a model POST leaves alone

A `PostBody` has its fields as they stand in the JSON, each present or absent; `decode` is the request that the handler
sees, where an absent field is the zero value. The handler skips the zero values of the numbers and of the projector of
the API server, and writes those of the two model paths and of the manager's projector (`written_absent`).

`frame_iff`: a POST leaves every setting alone that it does not carry exactly when what it clears was already empty.
-/

namespace LaManchaland.Api

open Sections (runAll)

/-- The body of `POST /api/model` with its fields as they are sent. -/
structure PostBody where
  path : Option String
  mmproj : Option String
  action : Option String
  ctxSize : Option Int
  nGPULayers : Option Int
  threads : Option Int
  nPredict : Option Int

/-- The decoder leaves an absent field at its zero value. -/
def PostBody.decode (body : PostBody) : ModelPost where
  path := body.path.getD ""
  mmproj := body.mmproj.getD ""
  action := body.action.getD ""
  ctxSize := body.ctxSize.getD 0
  nGPULayers := body.nGPULayers.getD 0
  threads := body.threads.getD 0
  nPredict := body.nPredict.getD 0

/-- The request of a body; `none` is one that does not decode. -/
def request (body : Option PostBody) : ModelRequest := .post (body.map PostBody.decode)

/-- The body does not carry the field of the setting. -/
def PostBody.Absent (body : PostBody) : Cell → Prop
  | .apiModelPath | .modelPath => body.path = none
  | .apiMMProjPath | .mmprojPath => body.mmproj = none
  | .ctxSize => body.ctxSize = none
  | .nGPU => body.nGPULayers = none
  | .nThreads => body.threads = none
  | .nPredict => body.nPredict = none

/-- The controller after a POST and, when it asks for a load, the goroutine. -/
def served (o o' : Outside) (body : Option PostBody) (c : Controller) : Controller :=
  if body.any fun b => b.decode.isLoad then runAll (Section.run o') loadGoroutine ((request body).handle o c)
  else (request body).handle o c

/-- The settings that a POST does not carry are unchanged in both objects after it is handled. -/
def Frame (o o' : Outside) (body : Option PostBody) (c : Controller) : Prop :=
  ∀ x, (∀ b, body = some b → b.Absent x) → values (served o o' body c) x = values c x

section Frame

variable {body : PostBody} {o o' : Outside} {c : Controller}

/-- What an absent field writes: nothing, except to the two model paths and the manager's projector. -/
theorem written_absent {x : Cell} (h : body.Absent x) :
    body.decode.written x = match x with
      | .apiModelPath | .modelPath | .mmprojPath => some ""
      | .apiMMProjPath | .ctxSize | .nGPU | .nThreads | .nPredict => none := by
  cases x <;> simp only [PostBody.Absent] at h <;> simp [PostBody.decode, ModelPost.written, h]

/-- Sections that write no cell change no setting. -/
theorem values_runAll_quiet (o : Outside) : ∀ (as : List Section) (c : Controller), (∀ a ∈ as, ∀ x, a.write x = none) →
    values (runAll (Section.run o) as c) = values c
  | [], _, _ => rfl
  | a :: as, c, h => by
    have hrun : values (a.run o c).1 = values c := by
      rw [values_run]
      funext x
      rw [Writes.apply, h a List.mem_cons_self x]
      rfl
    rw [runAll]
    split
    · rw [values_runAll_quiet o as _ fun b hb => h b (List.mem_cons_of_mem _ hb), hrun]
    · exact hrun

/-- The goroutine of a load changes no setting. -/
theorem values_loadGoroutine (o : Outside) (c : Controller) :
    values (runAll (Section.run o) loadGoroutine c) = values c := by
  refine values_runAll_quiet o loadGoroutine c fun a ha x => ?_
  simp only [loadGoroutine, List.mem_cons, List.not_mem_nil, or_false] at ha
  rcases ha with rfl | rfl | rfl | rfl <;> rfl

/-- So the handler of a POST decides its settings. -/
theorem values_served (body : Option PostBody) :
    values (served o o' body c) = values ((request body).handle o c) := by
  unfold served
  split
  · exact values_loadGoroutine o' _
  · rfl

/-- A setting that a decoded body does not carry, after the request. -/
theorem values_absent {x : Cell} (h : body.Absent x) :
    values (served o o' (some body) c) x = match x with
      | .apiModelPath | .modelPath | .mmprojPath => ""
      | .apiMMProjPath => c.api.mmprojPath
      | .ctxSize => c.llm.srv.ctxSize
      | .nGPU => c.llm.srv.nGPU
      | .nThreads => c.llm.srv.nThreads
      | .nPredict => c.llm.srv.nPredict := by
  have hw := written_absent h
  rw [values_served, request, Option.map_some, values_post, Writes.apply, hw]
  cases x <;> rfl

end Frame

/-- **When a POST changes only what it carries**, in every state: a body that decodes carries the path, or both model
paths were empty, and it carries the projector, or the manager's was empty. -/
theorem frame_iff (o o' : Outside) (body : Option PostBody) (c : Controller) :
    Frame o o' body c ↔ ∀ b, body = some b →
      (b.path = none → c.api.modelPath = "" ∧ c.llm.srv.modelPath = "") ∧
      (b.mmproj = none → c.llm.srv.mmprojPath = "") := by
  cases body with
  | none => exact iff_of_true (fun x _ => congrFun (values_served none) x) (fun b hb => by cases hb)
  | some b =>
    simp only [Frame, Option.some.injEq, forall_eq']
    constructor
    · intro h
      refine ⟨fun hp => ⟨?_, ?_⟩, fun hm => ?_⟩
      · exact (h .apiModelPath hp).symm.trans (values_absent (x := .apiModelPath) hp)
      · exact (h .modelPath hp).symm.trans (values_absent (x := .modelPath) hp)
      · exact (h .mmprojPath hm).symm.trans (values_absent (x := .mmprojPath) hm)
    · rintro ⟨hpath, hmmproj⟩ x hx
      rw [values_absent hx]
      cases x with
      | apiModelPath => exact (hpath hx).1.symm
      | modelPath => exact (hpath hx).2.symm
      | mmprojPath => exact (hmmproj hx).symm
      | _ => rfl

/-- `{"action": "unload"}`, as the UI sends it. -/
def unloadBody : PostBody := ⟨none, none, some "unload", none, none, none, none⟩

/-- The controller after a POST of a path and a projector. -/
def configured : Controller :=
  (request (some ⟨some "/m.gguf", some "/p.gguf", none, none, none, none, none⟩)).handle outsideUp idleController

/-- An unload forgets the configured path. -/
theorem unload_forgets : ¬∀ (o o' : Outside) (body : Option PostBody) (c : Controller), Frame o o' body c := by
  intro h
  have hpath : "" = "/m.gguf" :=
    h outsideUp outsideUp (some unloadBody) configured .modelPath fun b hb => by cases hb; rfl
  exact absurd hpath (by decide)

end LaManchaland.Api
