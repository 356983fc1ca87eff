import LaManchaland.Api.Deadlock
import LaManchaland.Lib.Ends

/-!
# What a frozen controller still answers

Every operation takes `api` on the outside, and `disc` and `llm` one at a time inside (`nested_prog`). So what a thread
that waits for itself does to the others is decided at `api` alone.

`controller_ends`: in every state of every interleaving an operation can still end exactly when it does not broadcast
with `api` locked and, once `api` is frozen, does not take it any more. An accepted addition of a worker freezes `api`
as soon as it asks for it, for good: from then on nothing ends that has still to take `api`, and of what arrives only
the list of the workers, the scanner, the end of a child and what is refused before its first lock (`asks_prog`).
-/

namespace LaManchaland.Api

open Runs
open Locks (Act Pool Hold Nested Permits Frozen Asks Relocks CanEnd Path Tidy retakes)

/-- The operation takes `api`. -/
def Op.asksApi : Op → Bool
  | .workersGet | .exitGoroutine | .scannerInsert => false
  | .workersDelete _ | .addRPCWorker | .removeRPCWorker _ | .modelGet | .load _ | .wsCleanup | .broadcastUpdate => true
  | .addWorker method body => acceptsWorker method body
  | .model (.post body) _ => body.isSome
  | .model .delete _ => true
  | .webSocket upgraded => upgraded

/-! ## The discipline -/

section Discipline

variable {k : Lock} {p : Prog}

theorem nested_locked (k' : Lock) (hp : Nested .api k .none p) : Nested .api k .none (locked k' ++ p) := by
  cases k <;> cases k' <;> simpa [locked, Nested, Permits, Hold.after, Hold.none] using hp

theorem nested_broadcast (hp : Nested .api k .none p) : Nested .api k .none (broadcastLocks ++ p) := by
  cases k <;> simpa [broadcastLocks, Nested, Permits, Hold.after, Hold.none] using hp

theorem nested_inside (hp : Nested .api k .none p) : Nested .api k .none (broadcastInside ++ p) := by
  cases k <;> simpa [broadcastInside, broadcastLocks, Nested, Permits, Hold.after, Hold.none] using hp

theorem nested_section (start : StartOutcome) (a : Section) (hp : Nested .api k .none p) :
    Nested .api k .none (a.locks start ++ p) := by
  have launched : Nested .api k .none ([.lock .llm, .go .exitGoroutine, .unlock .llm] ++ p) := by
    cases k <;> simpa [Nested, Permits, Hold.after, Hold.none] using hp
  cases a with
  | setPaths path mmproj => exact nested_locked .api hp
  | set f => exact nested_locked .llm hp
  | goLoad => exact ⟨trivial, hp⟩
  | copyWorkers => cases k <;> simpa [Section.locks, Nested, Permits, Hold.after, Hold.none] using hp
  | start =>
    cases start with
    | noLaunch => exact nested_locked .llm hp
    | timeout => exact launched
    | ready => exact launched
  | setLoaded => exact nested_locked .api hp
  | stop => exact nested_locked .llm hp
  | clearLoaded => exact nested_locked .api hp
  | clearModel => exact nested_locked .api hp
  | broadcast => exact nested_broadcast hp

theorem nested_sections (start : StartOutcome) (l : List Section) :
    Nested .api k .none (l.flatMap (Section.locks start)) := by
  induction l with
  | nil => rfl
  | cons a l ih =>
    rw [List.flatMap_cons]
    exact nested_section start a ih

/-- Every operation takes `api` on the outside. -/
theorem nested_prog (op : Op) (k : Lock) : Nested .api k .none (prog op) := by
  have hnil : Nested .api k .none ([] : Prog) := rfl
  cases op with
  | workersGet => cases k <;> simp [prog, Nested, Permits, Hold.after, Hold.none]
  | workersDelete body =>
    cases body <;> cases k <;> simp [prog, locked, broadcastLocks, Nested, Permits, Hold.after, Hold.none]
  | addWorker method body =>
    rw [prog]
    split
    · rw [List.append_assoc]
      exact nested_locked .disc (nested_inside (by simpa using nested_broadcast hnil))
    · rfl
  | addRPCWorker => simpa [prog] using nested_inside hnil
  | removeRPCWorker inRange =>
    cases inRange with
    | false => simpa [prog] using nested_locked .api hnil
    | true => simpa [prog] using nested_inside hnil
  | modelGet => cases k <;> simp [prog, Nested, Permits, Hold.after, Hold.none]
  | model r start => exact nested_sections start _
  | load start => exact nested_sections start _
  | exitGoroutine => simpa [prog] using nested_locked .llm hnil
  | webSocket upgraded => cases upgraded <;> cases k <;> simp [prog, Nested, Permits, Hold.after, Hold.none]
  | wsCleanup => cases k <;> simp [prog, Nested, Permits, Hold.after, Hold.none]
  | broadcastUpdate => simpa [prog] using nested_broadcast hnil
  | scannerInsert => simpa [prog] using nested_locked .disc hnil

end Discipline

/-! ## Which operations take `api`, and which take it inside itself -/

theorem asks_prog (op : Op) : Asks .api (prog op) ↔ op.asksApi = true := by
  cases op with
  | addWorker method body =>
    rw [prog, Op.asksApi]
    split
    · rename_i h
      simp [h, Asks, locked, broadcastInside, Act.asks]
    · rename_i h
      simp [h, Asks]
  | workersDelete body => cases body <;> simp [prog, Op.asksApi, Asks, locked, broadcastLocks, Act.asks]
  | removeRPCWorker inRange => cases inRange <;> simp [prog, Op.asksApi, Asks, locked, broadcastInside, Act.asks]
  | model r start =>
    cases r with
    | delete => simp [prog, Op.asksApi, ModelRequest.handler, handleModelDelete, Section.locks, locked, Asks, Act.asks]
    | post body =>
      cases body with
      | none => simp [prog, Op.asksApi, ModelRequest.handler, Asks]
      | some req =>
        simp [prog, Op.asksApi, ModelRequest.handler, handleModelPost, Section.locks, locked, Asks, Act.asks]
  | load start =>
    cases start <;> simp [prog, Op.asksApi, ranSections, loadGoroutine, Section.locks, locked, Asks, Act.asks]
  | webSocket upgraded => cases upgraded <;> simp [prog, Op.asksApi, Asks, Act.asks]
  | _ => simp [prog, Op.asksApi, locked, broadcastInside, broadcastLocks, Asks, Act.asks]

section Relocks

variable {p : Prog}

theorem retakes_free : retakes .api ⟨0, false⟩ p = false := Locks.retakes_none

theorem relocks_section (start : StartOutcome) (a : Section) :
    Relocks .api (a.locks start ++ p) → Relocks .api p := by
  cases a with
  | start => cases start <;> simp [Section.locks, locked]
  | _ => simp [Section.locks, locked, broadcastLocks, retakes, retakes_free, Hold.after, Act.asks, Hold.none]

theorem not_relocks_sections (start : StartOutcome) (l : List Section) :
    ¬Relocks .api (l.flatMap (Section.locks start)) := by
  induction l with
  | nil => exact Locks.relocks_nil
  | cons a l ih =>
    rw [List.flatMap_cons]
    exact mt (relocks_section start a) ih

theorem not_relocks_prog {op : Op} (h : op.selfLocks = false) : ¬Relocks .api (prog op) := by
  cases op with
  | addRPCWorker => cases h
  | addWorker method body =>
    have h : acceptsWorker method body = false := h
    simp [prog, h]
  | removeRPCWorker inRange =>
    have h : inRange = false := h
    simp [prog, h, locked, retakes, Act.asks, Hold.none]
  | workersDelete body => cases body <;> simp [prog, locked, broadcastLocks]
  | model r start => exact not_relocks_sections start _
  | load start => exact not_relocks_sections start _
  | webSocket upgraded => cases upgraded <;> simp [prog, retakes, Hold.after, Act.asks, Hold.none]
  | _ => simp [prog, locked, broadcastLocks, retakes, Hold.after, Act.asks, Hold.none]

/-- Every lock of `api` of such an operation is around a read of it. -/
theorem relocks_prog {op : Op} (h : op.selfLocks = true) :
    Relocks .api (prog op) ∧ ∀ rest, .lock .api :: rest <:+ prog op → retakes .api ⟨0, true⟩ rest = true := by
  have hinside : prog op = broadcastInside ∨ prog op = locked .disc ++ broadcastInside ++ broadcastLocks := by
    cases op with
    | addRPCWorker => exact .inl rfl
    | removeRPCWorker inRange => exact .inl (if_pos h)
    | addWorker method body => exact .inr (if_pos h)
    | _ => cases h
  rcases hinside with he | he
  · refine ⟨by simp [he, broadcastInside, broadcastLocks, retakes, Act.asks, Hold.none], fun rest hrest => ?_⟩
    obtain rfl : rest = broadcastLocks ++ [.unlock .api] := by
      simpa [he, broadcastInside, broadcastLocks, List.suffix_cons_iff] using hrest
    decide
  · refine ⟨by simp [he, locked, broadcastInside, broadcastLocks, retakes, Act.asks, Hold.none], fun rest hrest => ?_⟩
    obtain rfl : rest = broadcastLocks ++ [.unlock .api] ++ broadcastLocks := by
      simpa [he, locked, broadcastInside, broadcastLocks, List.suffix_cons_iff] using hrest
    decide

end Relocks

/-! ## Which operations end -/

theorem asksApi_of_selfLocks {op : Op} (h : op.selfLocks = true) : op.asksApi = true := by
  cases op with
  | addWorker method body => exact h
  | addRPCWorker | removeRPCWorker inRange => rfl
  | _ => cases h

/-- What becomes of the operations from a state of their threads. -/
structure Fate (ops : List Op) (s : Pool Lock Op Work) : Prop where
  /-- An operation can still end exactly when it does not broadcast with `api` locked and, once `api` is frozen, does
  not take it any more. -/
  ends : ∀ i op p, ops[i]? = some op → s.threads[i]? = some p →
    (CanEnd prog s i ↔ op.selfLocks = false ∧ (Frozen .api s → ¬Asks .api p))
  /-- One that broadcasts with `api` locked freezes it as soon as it asks for it, -/
  freezes : ∀ i op, ops[i]? = some op → op.selfLocks = true →
    s.writer .api = .waiting i ∨ s.writer .api = .holding i → Frozen .api s
  /-- it stays frozen, -/
  lasts : Frozen .api s → ∀ t, Path prog s t → Frozen .api t
  /-- and of what arrives then the rest ends. -/
  arrives : Frozen .api s → ∀ i op, ops[i]? = some op → s.threads[i]? = some (prog op) →
    (CanEnd prog s i ↔ op.asksApi = false)

section Fate

variable {ops : List Op} {ls : List Nat} {s : Pool Lock Op Work}

theorem tidy_ops (ops : List Op) : Tidy .api (Pool.init (ops.map prog) : Pool Lock Op Work) := by
  refine Locks.tidy_init fun p hp k => ?_
  obtain ⟨op, -, rfl⟩ := List.mem_map.mp hp
  exact nested_prog op k

theorem canEnd_iff (hpath : Path prog (Pool.init (ops.map prog)) s) {i : Nat} {op : Op} {p : Prog}
    (hop : ops[i]? = some op) (hp : s.threads[i]? = some p) :
    CanEnd prog s i ↔ op.selfLocks = false ∧ (Frozen .api s → ¬Asks .api p) := by
  have hinit := init_thread hop
  rw [Locks.ends_iff nested_prog (hpath.tidy nested_prog (tidy_ops ops)) hp]
  refine ⟨fun h => ⟨?_, h.2⟩, fun h => ⟨fun hr => ?_, h.2⟩⟩
  · -- it could end from the beginning
    have hend : CanEnd prog (Pool.init (ops.map prog)) i := .of_path hpath
      ((Locks.ends_iff nested_prog (hpath.tidy nested_prog (tidy_ops ops)) hp).mpr h)
    rw [Locks.ends_iff nested_prog (tidy_ops ops) hinit] at hend
    exact Bool.eq_false_iff.mpr fun hself => hend.1 (relocks_prog hself).1
  · obtain ⟨q, hq, hsuf⟩ := hpath.suffix hinit
    rw [hp] at hq
    cases hq
    exact not_relocks_prog h.1 (hr.of_suffix hsuf)

/-- **What becomes of the operations**, in every state of every interleaving. -/
theorem controller_ends (hs : exec (Locks.step prog) (Pool.init (ops.map prog)) ls = some s) : Fate ops s := by
  have hpath : Path prog (Pool.init (ops.map prog)) s := ⟨ls, hs⟩
  refine ⟨fun i op p => canEnd_iff hpath, fun i op hop hself => ?_, fun hf t ht => ?_, fun hf i op hop hp => ?_⟩
  · exact hpath.frozen_of_relocks nested_prog (tidy_ops ops) (init_thread hop) Locks.Writer.noConfusion
      (relocks_prog hself).2
  · exact ht.frozen nested_prog (hpath.tidy nested_prog (tidy_ops ops)) hf
  · rw [canEnd_iff hpath hop hp, asks_prog, Bool.not_eq_true]
    refine ⟨fun h => h.2 hf, fun h => ⟨Bool.eq_false_iff.mpr fun hself => ?_, fun _ => h⟩⟩
    rw [asksApi_of_selfLocks hself] at h
    cases h

end Fate

/-- The addition of a worker, with a request for the model state and one for the workers next to it. -/
def additionAndReads : List Op := [.addWorker .post (some ⟨"10.0.0.2", 50051, ""⟩), .modelGet, .workersGet]

/-- When the addition has got `api`, the model state is never answered, and the workers still are. -/
theorem controller_ends_addition : ∃ s, exec (Locks.step prog) (Pool.init (additionAndReads.map prog)) [0, 0, 0, 0, 0] =
    some s ∧ ¬CanEnd prog s 1 ∧ CanEnd prog s 2 := by
  have hrun : exec (Locks.step prog) (Pool.init (additionAndReads.map prog)) [0, 0, 0, 0, 0] = some _ := rfl
  have hfate := controller_ends hrun
  have hfrozen := hfate.freezes 0 _ rfl (by decide) (.inr rfl)
  refine ⟨_, hrun, fun h => ?_, (hfate.arrives hfrozen 2 .workersGet rfl rfl).mpr rfl⟩
  have hasks := (hfate.arrives hfrozen 1 .modelGet rfl rfl).mp h
  cases hasks

end LaManchaland.Api
