import LaManchaland.Api.Server
import LaManchaland.Lib.Runs

/-!
# The worker list against the registry

The registry is keyed by endpoint; the list `rpcWorkers` that becomes `--rpc` arguments only ever grows, one element
for each successful addition. `Sound`: the list has no duplicates and names only registered workers. Over every
sequence of successful additions and removals, the list stays sound exactly when no request names an endpoint that the
list already has (`sound_iff`).
-/

namespace LaManchaland.Api

open Runs
open Llmserver (Machine flagValues)

/-- A request to the worker endpoints, with the clock and the failing clients of its broadcasts. -/
inductive WorkerRequest where
  | add (now : Nat) (writeFails : Nat → Bool) (body : AddRequest)
  | remove (writeFails : Nat → Bool) (body : RemoveRequest)

def WorkerRequest.endpoint : WorkerRequest → String
  | .add _ _ body => LaManchaland.endpoint body.host body.port
  | .remove _ body => LaManchaland.endpoint body.host body.port

def WorkerRequest.handle (c : Controller) : WorkerRequest → Controller × Response (List (String × String))
  | .add now writeFails body => handleAddWorker c writeFails now .post (some body)
  | .remove writeFails body => handleWorkersDelete c writeFails (some body)

/-- A successful request. -/
def workerStep (c : Controller) (r : WorkerRequest) : Option Controller :=
  if (r.handle c).2.status = 200 then some (r.handle c).1 else none

/-- The list has no duplicates, and all its endpoints are registered. -/
structure Sound (c : Controller) : Prop where
  nodup : c.api.rpcWorkers.Nodup
  registered : ∀ e ∈ c.api.rpcWorkers, e ∈ c.disc.workers

/-- The request names an endpoint that the list does not have. -/
def NewEndpoint (c : Controller) (r : WorkerRequest) : Prop := r.endpoint ∉ c.api.rpcWorkers

/-- **What a successful request does** to the list and to the registry. -/
theorem workerStep_cases {c c' : Controller} {r : WorkerRequest} (h : workerStep c r = some c') :
    (c'.api.rpcWorkers = c.api.rpcWorkers ++ [r.endpoint] ∧
      ∀ k, k ∈ c'.disc.workers ↔ k = r.endpoint ∨ k ∈ c.disc.workers) ∨
    (c'.api.rpcWorkers = c.api.rpcWorkers ∧ ∀ k, k ∈ c'.disc.workers ↔ k ≠ r.endpoint ∧ k ∈ c.disc.workers) := by
  unfold workerStep at h
  split at h
  · rename_i hok
    cases h
    cases r with
    | add now writeFails body =>
      obtain ⟨req, hreq, _, _, _, he⟩ := handleAddWorker_ok hok
      cases hreq
      left
      simp only [WorkerRequest.handle, he]
      exact ⟨rfl, fun k => Discovery.mem_addManualWorker⟩
    | remove writeFails body =>
      obtain ⟨req, hreq, he⟩ := handleWorkersDelete_ok hok
      cases hreq
      right
      simp only [WorkerRequest.handle, he]
      exact ⟨rfl, fun k => Discovery.mem_removeWorker⟩
  · cases h

/-- From a sound list, a request keeps it sound exactly when it names a new endpoint. -/
theorem workerStep_sound {c c' : Controller} {r : WorkerRequest} (hs : Sound c) (h : workerStep c r = some c') :
    Sound c' ↔ NewEndpoint c r := by
  rcases workerStep_cases h with ⟨hl, hk⟩ | ⟨hl, hk⟩
  · constructor
    · intro hs' hmem
      have := hs'.nodup
      rw [hl, List.nodup_append] at this
      exact this.2.2 _ hmem _ (List.mem_singleton.mpr rfl) rfl
    · intro hnew
      refine ⟨?_, fun e he => ?_⟩
      · rw [hl, List.nodup_append]
        refine ⟨hs.nodup, List.nodup_singleton _, fun a ha b hb => ?_⟩
        rw [List.mem_singleton.mp hb]
        rintro rfl
        exact hnew ha
      · rw [hl, List.mem_append, List.mem_singleton] at he
        rcases he with he | rfl
        · exact (hk e).mpr (.inr (hs.registered e he))
        · exact (hk _).mpr (.inl rfl)
  · constructor
    · intro hs' hmem
      have := hs'.registered r.endpoint (by rw [hl]; exact hmem)
      exact ((hk _).mp this).1 rfl
    · intro hnew
      refine ⟨by rw [hl]; exact hs.nodup, fun e he => ?_⟩
      rw [hl] at he
      refine (hk e).mpr ⟨?_, hs.registered e he⟩
      rintro rfl
      exact hnew he

theorem sound_empty (llm : Machine) : Sound (emptyController llm) :=
  ⟨List.nodup_nil, fun e he => by cases he⟩

/-- **The exact condition for a sound worker list**, over every sequence of successful requests. -/
theorem sound_iff (llm : Machine) (rs : List WorkerRequest) :
    Always workerStep Sound (emptyController llm) rs ↔ Meets workerStep NewEndpoint (emptyController llm) rs :=
  always_iff_meets (I := fun _ => True) (fun _ _ _ _ _ => trivial) (fun _ _ _ _ => workerStep_sound) trivial
    (sound_empty llm) rs

/-- The worker that the two runs below are about. -/
def addGpu : WorkerRequest := .add 0 (fun _ => false) ⟨"10.0.0.2", 50051, "gpu"⟩

/-- A removed worker stays in the list, and a worker added twice is in it twice. -/
theorem list_unsound : ¬Always workerStep Sound (emptyController (Llmserver.init 8081))
      [addGpu, .remove (fun _ => false) ⟨"10.0.0.2", 50051⟩] ∧
    ¬Always workerStep Sound (emptyController (Llmserver.init 8081)) [addGpu, addGpu] := by
  constructor
  · intro h
    have h2 := (h.2 _ rfl).2 _ rfl
    have := h2.registered "10.0.0.2:50051" (by decide)
    revert this
    decide
  · intro h
    have h2 := (h.2 _ rfl).2 _ rfl
    have := h2.nodup
    revert this
    decide

/-- With a sound list, the command line of the next load names registered workers only, and none twice. -/
theorem Sound.workers {c : Controller} (h : Sound c) :
    let argv := (Llmserver.set (.setRPCWorkers c.api.rpcWorkers) c.llm).srv.buildArgs
    (flagValues "--rpc" argv).Nodup ∧ ∀ e ∈ flagValues "--rpc" argv, e ∈ c.disc.workers := by
  intro argv
  have : flagValues "--rpc" argv = c.api.rpcWorkers := Llmserver.flagValues_workers _
  rw [this]
  exact ⟨h.nodup, h.registered⟩

end LaManchaland.Api
