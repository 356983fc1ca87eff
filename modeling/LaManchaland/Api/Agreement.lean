import LaManchaland.Api.Settings
import LaManchaland.Startup

/-!
# The two copies of the model state

The path and the projector are kept by the API server, which reports them, and by the manager, which launches them.
`Agree`: the copies are equal. `SetModelPath` and `SetMMProjPath` write both; a POST writes an empty projector to the
manager only, and a DELETE clears the API server only. `agree_iff`: from the startup of the controller, over every
sequence of calls, the copies agree after each of them exactly when no call does that to a projector or a path that
is set.
-/

namespace LaManchaland.Api

open Runs
open Llmserver (Machine flagValues)
open Startup (Scan ControllerConfig startup)

/-- The calls, one at a time; between them load goroutines run their sections and children move. -/
inductive Call where
  | request (o : Outside) (r : ModelRequest)
  | setModelPath (path : String)
  | setMMProjPath (path : String)
  | goroutine (o : Outside) (a : Section)
  | exit (i : Nat)
  | update (i : Nat)

def call (c : Controller) : Call → Option Controller
  | .request o r => some (r.handle o c)
  | .setModelPath path => some (setModelPath c path)
  | .setMMProjPath path => some (setMMProjPath c path)
  | .goroutine o a => if a ∈ loadGoroutine then some (a.run o c).1 else none
  | .exit i => (Llmserver.exit i c.llm).map fun m => { c with llm := m }
  | .update i => (Llmserver.update i c.llm).map fun m => { c with llm := m }

/-- Both copies are equal. -/
structure Agree (c : Controller) : Prop where
  path : c.api.modelPath = c.llm.srv.modelPath
  mmproj : c.api.mmprojPath = c.llm.srv.mmprojPath

/-- The call writes both copies: a POST names a projector or none is set, a DELETE finds the manager without paths. -/
def WritesBoth (c : Controller) : Call → Prop
  | .request _ (.post (some req)) => req.mmproj ≠ "" ∨ c.api.mmprojPath = ""
  | .request _ .delete => c.llm.srv.modelPath = "" ∧ c.llm.srv.mmprojPath = ""
  | _ => True

section Agree

variable {c c' : Controller}

/-- Agreement is about four cells. -/
theorem agree_values : Agree c ↔ values c .apiModelPath = values c .modelPath ∧
    values c .apiMMProjPath = values c .mmprojPath :=
  ⟨fun h => ⟨h.path, h.mmproj⟩, fun h => ⟨h.1, h.2⟩⟩

/-- A change that leaves the cells alone keeps the agreement. -/
theorem agree_congr (h : values c' = values c) : Agree c' ↔ Agree c := by
  rw [agree_values, agree_values, h]

/-- A POST keeps the agreement exactly when it names a projector or none is set. -/
theorem agree_post (o : Outside) (req : ModelPost) :
    Agree ((ModelRequest.post (some req)).handle o c) ↔ req.mmproj ≠ "" ∨ c.api.mmprojPath = "" := by
  rw [agree_values, values_post]
  have hpath : Writes.apply req.written (values c) .apiModelPath = Writes.apply req.written (values c) .modelPath := rfl
  by_cases hm : req.mmproj = ""
  · have hapi : Writes.apply req.written (values c) .apiMMProjPath = c.api.mmprojPath := by
      simp only [Writes.apply, ModelPost.written, hm, ne_eq, not_true_eq_false, if_false]
      rfl
    have hllm : Writes.apply req.written (values c) .mmprojPath = req.mmproj := rfl
    rw [hapi, hllm, hm]
    exact ⟨fun h' => .inr h'.2, fun h' => ⟨hpath, h'.resolve_left fun hne => hne rfl⟩⟩
  · have hapi : Writes.apply req.written (values c) .apiMMProjPath = req.mmproj := by
      simp only [Writes.apply, ModelPost.written, hm, ne_eq, not_false_eq_true, if_true]
      rfl
    exact iff_of_true ⟨hpath, hapi⟩ (.inl hm)

/-- A DELETE keeps it exactly when the manager has no paths. -/
theorem agree_delete (o : Outside) :
    Agree (ModelRequest.delete.handle o c) ↔ c.llm.srv.modelPath = "" ∧ c.llm.srv.mmprojPath = "" := by
  have hpath : (ModelRequest.delete.handle o c).llm.srv.modelPath = c.llm.srv.modelPath :=
    congrFun (values_handle o .delete c) .modelPath
  have hmm : (ModelRequest.delete.handle o c).llm.srv.mmprojPath = c.llm.srv.mmprojPath :=
    congrFun (values_handle o .delete c) .mmprojPath
  constructor
  · intro h
    exact ⟨by rw [← hpath, ← h.path]; rfl, by rw [← hmm, ← h.mmproj]; rfl⟩
  · rintro ⟨hp, hm⟩
    exact ⟨by rw [hpath, hp]; rfl, by rw [hmm, hm]; rfl⟩

/-- The goroutine of a load writes no cell. -/
theorem values_goroutine {a : Section} (ha : a ∈ loadGoroutine) (o : Outside) :
    values (a.run o c).1 = values c := by
  rw [values_run]
  simp only [loadGoroutine, List.mem_cons, List.not_mem_nil, or_false] at ha
  rcases ha with rfl | rfl | rfl | rfl <;> rfl

/-- From agreeing copies, a call keeps the agreement exactly when it writes both. -/
theorem agree_call (h : Agree c) {l : Call} (hc : call c l = some c') : Agree c' ↔ WritesBoth c l := by
  cases l with
  | request o r =>
    cases hc
    cases r with
    | delete => exact agree_delete o
    | post body =>
      cases body with
      | none => exact iff_of_true h trivial
      | some req => exact agree_post o req
  | setModelPath path => cases hc; exact iff_of_true ⟨rfl, h.mmproj⟩ trivial
  | setMMProjPath path => cases hc; exact iff_of_true ⟨h.path, rfl⟩ trivial
  | goroutine o a =>
    simp only [call] at hc
    split at hc
    · rename_i ha
      cases hc
      exact iff_of_true ((agree_congr (values_goroutine ha o)).mpr h) trivial
    · cases hc
  | exit i =>
    obtain ⟨m, hm, rfl⟩ := Option.map_eq_some_iff.mp hc
    obtain ⟨_, _, _, rfl⟩ := Llmserver.exit_some hm
    exact iff_of_true ⟨h.path, h.mmproj⟩ trivial
  | update i =>
    obtain ⟨m, hm, rfl⟩ := Option.map_eq_some_iff.mp hc
    obtain ⟨_, _, _, _, rfl⟩ := Llmserver.update_some hm
    exact iff_of_true ⟨h.path, h.mmproj⟩ trivial

/-- The startup writes both copies. -/
theorem agree_startup (scan : Scan) (now : Nat) (cfg : ControllerConfig) : Agree (startup scan now cfg) := by
  have hmm := (Startup.configuredLlm_fresh cfg).2.2
  constructor
  · rw [Startup.startup_api, Startup.startup_llm]
    split <;> rfl
  · rw [Startup.startup_api, Startup.startup_llm]
    split <;> exact hmm.symm

/-- **The exact condition for agreeing copies**, over every sequence of calls from the startup of the controller. -/
theorem agree_iff (scan : Scan) (now : Nat) (cfg : ControllerConfig) (calls : List Call) :
    Always call Agree (startup scan now cfg) calls ↔ Meets call WritesBoth (startup scan now cfg) calls :=
  always_iff_meets (I := fun _ => True) (fun _ _ _ _ _ => trivial) (fun _ _ _ _ h hc => agree_call h hc) trivial
    (agree_startup scan now cfg) calls

/-- A configuration with a model and without workers. -/
def modelConfig : ControllerConfig := ⟨"0.0.0.0", 8080, "/path/to/model.gguf", 4096, 0, [], true⟩

/-- A POST without a projector, after one with it, changes the manager only; a DELETE leaves the manager its path. -/
theorem copies_disagree :
    ¬Always call Agree (startup (fun _ _ _ => none) 0 modelConfig)
      [.setMMProjPath "/mmproj.gguf", .request outsideUp (.post (some (pathRequest "/a.gguf")))] ∧
    ¬Always call Agree (startup (fun _ _ _ => none) 0 modelConfig) [.request outsideUp .delete] := by
  constructor
  · intro h
    have hmm : "/mmproj.gguf" = "" := ((h.2 _ rfl).2 _ rfl).mmproj
    exact absurd hmm (by decide)
  · intro h
    have hpath : "" = "/path/to/model.gguf" := (h.2 _ rfl).path
    exact absurd hpath (by decide)

/-- With agreeing copies, the next `Start` launches what the API reports. -/
theorem Agree.launched (h : Agree c) :
    flagValues "--model" c.llm.srv.buildArgs = [(handleModelGet c).body.path] ∧
    flagValues "--mmproj" c.llm.srv.buildArgs =
      (if (handleModelGet c).body.mmproj = "" then [] else [(handleModelGet c).body.mmproj]) ∧
    (broadcastPayload c).path = (handleModelGet c).body.path := by
  rw [Llmserver.flagValues_model, Llmserver.flagValues_mmproj, ← h.path, ← h.mmproj]
  exact ⟨rfl, rfl, rfl⟩

end Agree

end LaManchaland.Api
