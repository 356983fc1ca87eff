import LaManchaland.Api.Model
import LaManchaland.Lib.Locks

/-!
# Deadlocks of the controller

The handlers and goroutines as the locks that they take: `s.mu` of the API server (`api`) and of the registry (`disc`),
both reader-writer locks, and `s.mu` of the manager (`llm`), a mutex. `broadcastUpdate` reads `api` and then `disc`.

It is called with `api` locked by `AddRPCWorker` and `RemoveRPCWorker`, so these wait for themselves
(`selfLocks_deadlock`), and with `api` read by the DELETE of a worker, which waits for a writer that comes in between
(`reread_locksApi_deadlock`). Everything else takes `api` first and one other lock inside (`safe_ordered`). So a
multiset of operations can deadlock exactly when it has one of the former, or one of the latter with a writer of `api`
(`deadlockFree_iff`).
-/

namespace LaManchaland.Api

open Runs
open Locks (Act Pool Deadlock Ordered Balanced)
open Llmserver (Machine Env CanLaunch)

inductive Lock where
  | api
  | disc
  | llm
  deriving DecidableEq

/-- The accesses to the client set. -/
inductive Work where
  | clientLoop
  | register
  | remove

/-- How a `Start` ends: without a child, with one that is not ready in time, or with one that is. -/
inductive StartOutcome where
  | noLaunch
  | timeout
  | ready
  deriving DecidableEq

inductive Op where
  | workersGet
  | workersDelete (body : Option RemoveRequest)
  | addWorker (method : Method) (body : Option AddRequest)
  | addRPCWorker
  | removeRPCWorker (inRange : Bool)
  | modelGet
  | model (r : ModelRequest) (start : StartOutcome)
  | load (start : StartOutcome)
  | exitGoroutine
  | webSocket (upgraded : Bool)
  | wsCleanup
  | broadcastUpdate
  | scannerInsert

/-! ## The programs -/

abbrev Prog := List (Act Lock Op Work)

def locked (k : Lock) : Prog := [.lock k, .unlock k]

def broadcastLocks : Prog := [.rlock .api, .rlock .disc, .runlock .disc, .work .clientLoop, .runlock .api]

/-- `AddRPCWorker`, and `RemoveRPCWorker` in range. -/
def broadcastInside : Prog := .lock .api :: broadcastLocks ++ [.unlock .api]

/-- The locks of a section of the model handler. -/
def Section.locks (start : StartOutcome) : Section → Prog
  | .setPaths .. | .setLoaded | .clearLoaded | .clearModel => locked .api
  | .set _ | .stop => locked .llm
  | .goLoad => [.go (.load start)]
  | .copyWorkers => [.lock .api, .lock .llm, .unlock .llm, .unlock .api]
  | .start =>
    match start with
    | .noLaunch => locked .llm
    | .timeout | .ready => [.lock .llm, .go .exitGoroutine, .unlock .llm]
  | .broadcast => broadcastLocks

/-- The sections that the load goroutine runs: a failing `Start` ends it. -/
def ranSections : StartOutcome → List Section
  | .ready => loadGoroutine
  | .noLaunch | .timeout => loadGoroutine.take 2

/-- Does `handleAddWorker` accept the request? -/
def acceptsWorker (method : Method) (body : Option AddRequest) : Bool :=
  method = .post ∧ body.any fun req => req.host ≠ "" ∧ req.port ≠ 0

/-- The locks of an operation, in order. -/
def prog : Op → Prog
  | .workersGet => [.rlock .disc, .runlock .disc]
  | .workersDelete none => [.rlock .api, .runlock .api]
  | .workersDelete (some _) => .rlock .api :: locked .disc ++ broadcastLocks ++ [.runlock .api]
  | .addWorker method body =>
    if acceptsWorker method body then locked .disc ++ broadcastInside ++ broadcastLocks else []
  | .addRPCWorker => broadcastInside
  | .removeRPCWorker inRange => if inRange then broadcastInside else locked .api
  | .modelGet => [.rlock .api, .lock .llm, .unlock .llm, .runlock .api]
  | .model r start => r.handler.flatMap (Section.locks start)
  | .load start => (ranSections start).flatMap (Section.locks start)
  | .exitGoroutine => locked .llm
  | .webSocket upgraded => if upgraded then [.lock .api, .work .register, .unlock .api, .go .wsCleanup] else []
  | .wsCleanup => [.lock .api, .work .remove, .unlock .api]
  | .broadcastUpdate => broadcastLocks
  | .scannerInsert => locked .disc

/-! ## The programs against the handlers -/

/-- The additions with locks are those that the handler answers with 200. -/
theorem acceptsWorker_iff (c : Controller) (writeFails : Nat → Bool) (now : Nat) (method : Method)
    (body : Option AddRequest) :
    acceptsWorker method body = true ↔ (handleAddWorker c writeFails now method body).2.status = 200 := by
  unfold handleAddWorker acceptsWorker
  by_cases hm : method = .post
  · cases body with
    | none => simp [hm]
    | some req =>
      by_cases hr : req.host = "" ∨ req.port = 0
      · rcases hr with hr | hr <;> simp [hm, hr]
      · rw [not_or] at hr
        simp [hm, hr.1, hr.2]
  · simp [hm]

/-- How a `Start` ends in an environment. -/
def startOutcome (env : Env) (m : Machine) : StartOutcome :=
  if CanLaunch env m then if Llmserver.pollHealth env 30 then .ready else .timeout else .noLaunch

/-- The goroutine of a load runs the sections of its outcome. -/
theorem runAll_ranSections (o : Outside) (c : Controller) :
    Sections.runAll (Section.run o) (ranSections (startOutcome o.env (copyWorkers c).llm)) c =
      Sections.runAll (Section.run o) loadGoroutine c := by
  unfold startOutcome
  rcases Llmserver.start_cases o.env (copyWorkers c).llm with ⟨hp, he⟩ | ⟨_, hf, he⟩ | ⟨hl, he⟩
  · rw [if_neg fun hl => hl.1 hp]
    simp [ranSections, loadGoroutine, Sections.runAll, Section.run, he]
  · rw [if_neg fun hl => hl.2 hf]
    simp [ranSections, loadGoroutine, Sections.runAll, Section.run, he]
  · rw [if_pos hl]
    cases hh : Llmserver.pollHealth o.env 30 with
    | true => rfl
    | false => simp [ranSections, loadGoroutine, Sections.runAll, Section.run, he, hh]

/-! ## The condition -/

/-- The operation reads `api` while it has it locked. -/
def Op.selfLocks : Op → Bool
  | .addRPCWorker => true
  | .removeRPCWorker inRange => inRange
  | .addWorker method body => acceptsWorker method body
  | _ => false

/-- The operation reads `api` while it reads it. -/
def Op.rereads : Op → Bool
  | .workersDelete body => body.isSome
  | _ => false

/-- The operation locks `api`. -/
def Op.locksApi : Op → Bool
  | .addRPCWorker | .removeRPCWorker _ | .load _ | .wsCleanup | .model (.post (some _)) _ | .model .delete _ => true
  | .addWorker method body => acceptsWorker method body
  | .webSocket upgraded => upgraded
  | _ => false

/-- No operation broadcasts with `api` locked, and none that broadcasts with `api` read meets one that locks it. -/
structure Safe (ops : List Op) : Prop where
  selfLocks : ∀ op ∈ ops, op.selfLocks = false
  rereads : (∀ op ∈ ops, op.rereads = false) ∨ ∀ op ∈ ops, op.locksApi = false

/-! ## The lock order -/

/-- `api` is taken before the others. -/
def rank : Lock → Nat
  | .api => 0
  | .disc | .llm => 1

section LockOrder

variable {readOnly : Lock → Prop} {good : Op → Prop}

theorem balanced_broadcast : Balanced rank readOnly good broadcastLocks := by
  intro p hp
  simp only [broadcastLocks, List.cons_append, List.nil_append, Ordered]
  refine ⟨.inr (by simp), .inr (by simp [rank]), ?_⟩
  simpa using hp

/-- Every section of the model handler takes `api` first. -/
theorem balanced_section (hapi : ¬readOnly .api) (hllm : ¬readOnly .llm) (hload : ∀ start, good (.load start))
    (hexit : good .exitGoroutine) (start : StartOutcome) (a : Section) :
    Balanced rank readOnly good (a.locks start) := by
  cases a with
  | setPaths path mmproj => exact .locked hapi
  | set f => exact .locked hllm
  | goLoad => exact fun p hp => ⟨hload start, hp⟩
  | copyWorkers =>
    intro p hp
    simp only [Section.locks, List.cons_append, List.nil_append, Ordered]
    refine ⟨⟨hapi, by simp⟩, ⟨hllm, by simp [rank]⟩, ?_⟩
    simpa using hp
  | start =>
    have launched : Balanced rank readOnly good ([.lock .llm, .go .exitGoroutine, .unlock .llm] : Prog) := by
      intro p hp
      simp only [List.cons_append, List.nil_append, Ordered]
      refine ⟨⟨hllm, by simp⟩, hexit, ?_⟩
      simpa using hp
    cases start with
    | noLaunch => exact .locked hllm
    | timeout => exact launched
    | ready => exact launched
  | setLoaded => exact .locked hapi
  | stop => exact .locked hllm
  | clearLoaded => exact .locked hapi
  | clearModel => exact .locked hapi
  | broadcast => exact balanced_broadcast

end LockOrder

/-- Operations that neither lock `api` around a broadcast nor read it again keep the lock order. -/
theorem ordered_of_not_rereads {op : Op} (h : op.selfLocks = false ∧ op.rereads = false) :
    Ordered rank (fun _ => False) (fun op => op.selfLocks = false ∧ op.rereads = false) [] (prog op) := by
  have hsection : ∀ start (a : Section),
      Balanced rank (fun _ => False) (fun op => op.selfLocks = false ∧ op.rereads = false) (a.locks start) :=
    fun start a => balanced_section (fun h => h) (fun h => h) (fun _ => ⟨rfl, rfl⟩) ⟨rfl, rfl⟩ start a
  obtain ⟨hself, hreread⟩ := h
  cases op with
  | workersGet => exact (Balanced.rlocked _).ordered
  | workersDelete body =>
    cases body with
    | none => exact (Balanced.rlocked _).ordered
    | some req => cases hreread
  | addWorker method body =>
    have hself : acceptsWorker method body = false := hself
    simp [prog, hself, Ordered]
  | addRPCWorker => cases hself
  | removeRPCWorker inRange =>
    have hself : inRange = false := hself
    subst hself
    exact (Balanced.locked fun h => h).ordered
  | modelGet => simp [prog, Ordered, rank]
  | model r start => exact (Balanced.flatMap fun a _ => hsection start a).ordered
  | load start => exact (Balanced.flatMap fun a _ => hsection start a).ordered
  | exitGoroutine => exact (Balanced.locked fun h => h).ordered
  | webSocket upgraded => cases upgraded <;> simp [prog, Ordered, Op.selfLocks, Op.rereads]
  | wsCleanup => simp [prog, Ordered]
  | broadcastUpdate => exact balanced_broadcast.ordered
  | scannerInsert => exact (Balanced.locked fun h => h).ordered

/-- Operations that never lock `api` keep the lock order, `api` being read only. -/
theorem ordered_of_not_locksApi {op : Op} (h : op.selfLocks = false ∧ op.locksApi = false) :
    Ordered rank (fun k => k = .api) (fun op => op.selfLocks = false ∧ op.locksApi = false) [] (prog op) := by
  obtain ⟨hself, hlocks⟩ := h
  cases op with
  | workersGet => exact (Balanced.rlocked _).ordered
  | workersDelete body =>
    cases body with
    | none => exact (Balanced.rlocked _).ordered
    | some req => simp [prog, locked, broadcastLocks, Ordered, rank]
  | addWorker method body =>
    have hself : acceptsWorker method body = false := hself
    simp [prog, hself, Ordered]
  | addRPCWorker => cases hself
  | removeRPCWorker inRange => cases hlocks
  | modelGet => simp [prog, Ordered, rank]
  | model r start =>
    cases r with
    | delete => cases hlocks
    | post body =>
      cases body with
      | none => simp [prog, ModelRequest.handler, Ordered]
      | some req => cases hlocks
  | load start => cases hlocks
  | exitGoroutine => exact (Balanced.locked (by simp)).ordered
  | webSocket upgraded =>
    have hlocks : upgraded = false := hlocks
    simp [prog, hlocks, Ordered]
  | wsCleanup => cases hlocks
  | broadcastUpdate => exact balanced_broadcast.ordered
  | scannerInsert => exact (Balanced.locked (by simp)).ordered

/-- Safe operations keep a lock order. -/
theorem Safe.not_deadlock {ops : List Op} (h : Safe ops) {ls : List Nat} {s : Pool Lock Op Work}
    (hs : exec (Locks.step prog) (Pool.init (ops.map prog)) ls = some s) (S : Finset Nat) : ¬Deadlock s S := by
  rcases h.rereads with hr | hl
  · refine Locks.no_deadlock (fun _ => ordered_of_not_rereads) (fun p hp => ?_) hs S
    obtain ⟨op, hop, rfl⟩ := List.mem_map.mp hp
    exact ordered_of_not_rereads ⟨h.selfLocks op hop, hr op hop⟩
  · refine Locks.no_deadlock (fun _ => ordered_of_not_locksApi) (fun p hp => ?_) hs S
    obtain ⟨op, hop, rfl⟩ := List.mem_map.mp hp
    exact ordered_of_not_locksApi ⟨h.selfLocks op hop, hl op hop⟩

/-! ## The deadlocks -/

section Reach

variable {s : Pool Lock Op Work} {i : Nat} {p q : Prog}

/-- All locks are free. -/
def AllFree (s : Pool Lock Op Work) : Prop := ∀ k, s.writer k = .free ∧ s.readers k = []

/-- A thread whose program is `q`, or one locked section and then `q`, can get to `q`. -/
theorem exec_to (hfree : AllFree s) (hi : s.threads[i]? = some p) {k : Lock} (hp : p = q ∨ p = locked k ++ q) :
    ∃ ls, exec (Locks.step prog) s ls = some { s with threads := s.threads.set i q } := by
  rcases hp with rfl | rfl
  · obtain ⟨hlt, hget⟩ := List.getElem?_eq_some_iff.mp hi
    refine ⟨[], ?_⟩
    rw [exec_nil, ← hget, List.set_getElem_self]
  · exact ⟨[i, i, i], Locks.exec_lock_unlock hi (hfree k).1 (hfree k).2⟩

/-- An operation that broadcasts with `api` locked gets to the point where it waits for itself. -/
theorem selfLocks_prog {op : Op} (h : op.selfLocks = true) :
    ∃ rest, prog op = .lock .api :: .rlock .api :: rest ∨
      prog op = locked .disc ++ .lock .api :: .rlock .api :: rest := by
  cases op with
  | addRPCWorker => exact ⟨_, .inl rfl⟩
  | removeRPCWorker inRange =>
    have h : inRange = true := h
    subst h
    exact ⟨_, .inl rfl⟩
  | addWorker method body =>
    have h : acceptsWorker method body = true := h
    have hp : prog (.addWorker method body) = locked .disc ++ (broadcastInside ++ broadcastLocks) := by
      rw [prog, if_pos h, List.append_assoc]
    exact ⟨_, .inr hp⟩
  | _ => cases h

/-- An operation that locks `api`, and not around a broadcast, gets to the point where it does. -/
theorem locksApi_prog {op : Op} (h : op.locksApi = true) (hself : op.selfLocks = false) :
    ∃ rest, prog op = .lock .api :: rest ∨ prog op = locked .llm ++ .lock .api :: rest := by
  cases op with
  | addRPCWorker => cases hself
  | removeRPCWorker inRange =>
    have hself : inRange = false := hself
    subst hself
    exact ⟨_, .inl rfl⟩
  | addWorker method body => exact absurd (h.symm.trans hself) Bool.noConfusion
  | model r start =>
    cases r with
    | delete => exact ⟨_, .inr rfl⟩
    | post body =>
      cases body with
      | none => cases h
      | some req => exact ⟨_, .inl rfl⟩
  | load start => cases start <;> exact ⟨_, .inl rfl⟩
  | webSocket upgraded =>
    have h : upgraded = true := h
    subst h
    exact ⟨_, .inl rfl⟩
  | wsCleanup => exact ⟨_, .inl rfl⟩
  | _ => cases h

/-- **A broadcast with `api` locked** can always end in a thread that waits for itself. -/
theorem selfLocks_deadlock (hfree : AllFree s) {op : Op} (hi : s.threads[i]? = some (prog op))
    (h : op.selfLocks = true) : ∃ ls t, exec (Locks.step prog) s ls = some t ∧ Deadlock t {i} := by
  have hlt := (List.getElem?_eq_some_iff.mp hi).1
  obtain ⟨rest, hrest⟩ := selfLocks_prog h
  obtain ⟨ls, hls⟩ := exec_to hfree hi hrest
  have hi' : (s.threads.set i (.lock .api :: .rlock .api :: rest))[i]? = some (.lock .api :: .rlock .api :: rest) := by
    simp [hlt]
  obtain ⟨t, ht, hd⟩ : ∃ t, exec (Locks.step prog) { s with threads := s.threads.set i _ } [i, i] = some t ∧
      Deadlock t {i} := Locks.lock_rlock_deadlock hi' (hfree .api).1 (hfree .api).2
  exact ⟨ls ++ [i, i], t, exec_trans hls ht, hd⟩

/-- The handler of a removal reads `api` and has the worker removed, next to other readers of `api`. -/
theorem exec_removal {q : Prog} (hi : s.threads[i]? = some (.rlock .api :: locked .disc ++ q))
    (hapi : s.writer .api = .free) (hdisc : s.writer .disc = .free) (hreaders : s.readers .disc = []) :
    exec (Locks.step prog) s ([i] ++ [i, i, i]) = some { s with
      threads := s.threads.set i q, readers := Function.update s.readers .api (i :: s.readers .api) } := by
  have hlt := (List.getElem?_eq_some_iff.mp hi).1
  let s₁ : Pool Lock Op Work :=
    { s with
      threads := s.threads.set i (locked .disc ++ q)
      readers := Function.update s.readers .api (i :: s.readers .api) }
  have h₁ : exec (Locks.step prog) s [i] = some s₁ := Locks.exec_rlock hi hapi
  have hi₁ : s₁.threads[i]? = some (.lock .disc :: .unlock .disc :: q) := by simp [s₁, hlt, locked]
  rw [exec_trans h₁ (Locks.exec_lock_unlock hi₁ hdisc (by simp [s₁, hreaders]))]
  simp [s₁]

/-- **A broadcast with `api` read** and an operation that locks `api` can always end in a wait for each other. -/
theorem reread_locksApi_deadlock (hfree : AllFree s) {j : Nat} (hij : i ≠ j) {req : RemoveRequest} {op : Op}
    (hi : s.threads[i]? = some (prog (.workersDelete (some req)))) (hj : s.threads[j]? = some (prog op))
    (h : op.locksApi = true) (hself : op.selfLocks = false) :
    ∃ ls t, exec (Locks.step prog) s ls = some t ∧ Deadlock t {i, j} := by
  have hlti := (List.getElem?_eq_some_iff.mp hi).1
  have hltj := (List.getElem?_eq_some_iff.mp hj).1
  obtain ⟨rest, hrest⟩ := locksApi_prog h hself
  -- the writer goes up to its lock, the reader to its second read, and then the writer announces itself
  obtain ⟨ls, hls⟩ := exec_to hfree hj hrest
  let inner : Prog := broadcastLocks ++ [.runlock .api]
  let s₁ : Pool Lock Op Work := { s with threads := s.threads.set j (.lock .api :: rest) }
  have hi₁ : s₁.threads[i]? = some (.rlock .api :: locked .disc ++ inner) := by
    simp only [s₁, List.getElem?_set_ne (Ne.symm hij)]
    exact hi
  let s₂ : Pool Lock Op Work :=
    { s₁ with
      threads := s₁.threads.set i inner
      readers := Function.update s₁.readers .api (i :: s₁.readers .api) }
  have h₂ : exec (Locks.step prog) s₁ ([i] ++ [i, i, i]) = some s₂ :=
    exec_removal hi₁ (hfree .api).1 (hfree .disc).1 (hfree .disc).2
  have hi₂ : s₂.threads[i]? = some inner := by simp [s₂, s₁, hlti]
  have hj₂ : s₂.threads[j]? = some (.lock .api :: rest) := by simp [s₂, s₁, hij, hltj]
  obtain ⟨t, ht, hd⟩ := Locks.reread_deadlock hi₂ hj₂ (by simp [s₂, s₁, (hfree .api).2]) (hfree .api).1
  exact ⟨ls ++ ([i] ++ [i, i, i] ++ [j]), t, exec_trans hls (exec_trans h₂ ht), hd⟩

end Reach

/-! ## Exactly when -/

section Exactly

variable {ops : List Op}

theorem allFree_init : AllFree (Pool.init (ops.map prog)) := fun _ => ⟨rfl, rfl⟩

theorem init_thread {i : Nat} {op : Op} (h : ops[i]? = some op) :
    (Pool.init (ops.map prog) : Pool Lock Op Work).threads[i]? = some (prog op) := by
  simp [Pool.init, h]

/-- No reachable state of the concurrent operations has a deadlock. -/
def DeadlockFree (ops : List Op) : Prop :=
  ∀ ls s, exec (Locks.step prog) (Pool.init (ops.map prog)) ls = some s → ∀ S, ¬Deadlock s S

/-- **Exactly the safe multisets of operations are free of deadlock**, under every interleaving. -/
theorem deadlockFree_iff (ops : List Op) : DeadlockFree ops ↔ Safe ops := by
  constructor
  · intro h
    have hself : ∀ op ∈ ops, op.selfLocks = false := by
      intro op hop
      by_contra hne
      obtain ⟨i, hi⟩ := List.mem_iff_getElem?.mp hop
      obtain ⟨ls, t, ht, hd⟩ := selfLocks_deadlock allFree_init (init_thread hi) (by simpa using hne)
      exact h ls t ht _ hd
    refine ⟨hself, ?_⟩
    by_contra hne
    simp only [not_or, not_forall, Bool.not_eq_false] at hne
    obtain ⟨⟨op, hop, hreread⟩, ⟨op', hop', hlocks⟩⟩ := hne
    obtain ⟨i, hi⟩ := List.mem_iff_getElem?.mp hop
    obtain ⟨j, hj⟩ := List.mem_iff_getElem?.mp hop'
    have hbody : ∃ req, op = .workersDelete (some req) := by
      cases op with
      | workersDelete body =>
        cases body with
        | none => cases hreread
        | some req => exact ⟨req, rfl⟩
      | _ => cases hreread
    obtain ⟨req, rfl⟩ := hbody
    have hij : i ≠ j := by
      rintro rfl
      rw [hi] at hj
      cases hj
      cases hlocks
    obtain ⟨ls, t, ht, hd⟩ := reread_locksApi_deadlock allFree_init hij (init_thread hi) (init_thread hj) hlocks
      (hself op' hop')
    exact h ls t ht _ hd
  · intro h ls s hs S
    exact h.not_deadlock hs S

/-- The addition of one worker. -/
def oneAddition : List Op := [.addWorker .post (some ⟨"10.0.0.2", 50051, ""⟩)]

/-- The removal of a worker during a load. -/
def removalAndLoad : List Op := [.workersDelete (some ⟨"10.0.0.2", 50051⟩), .load .ready]

/-- The addition of a worker waits for itself; a removal and a load wait for each other. -/
theorem controller_deadlocks : ¬DeadlockFree oneAddition ∧ ¬DeadlockFree removalAndLoad := by
  constructor
  · intro h
    have hi : oneAddition[0]? = some (.addWorker .post (some ⟨"10.0.0.2", 50051, ""⟩)) := rfl
    obtain ⟨ls, t, ht, hd⟩ := selfLocks_deadlock allFree_init (init_thread hi) (by decide)
    exact h ls t ht _ hd
  · intro h
    have hi : removalAndLoad[0]? = some (.workersDelete (some ⟨"10.0.0.2", 50051⟩)) := rfl
    have hj : removalAndLoad[1]? = some (.load .ready) := rfl
    obtain ⟨ls, t, ht, hd⟩ :=
      reread_locksApi_deadlock allFree_init (by decide) (init_thread hi) (init_thread hj) rfl rfl
    exact h ls t ht _ hd

end Exactly

end LaManchaland.Api
