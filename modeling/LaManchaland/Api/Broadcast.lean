import LaManchaland.Api.Deadlock
import LaManchaland.Lib.Exclusion

/-!
# Who is in the client loop

`broadcastUpdate` writes to the clients and deletes from their set, but holds `api` for reading only; the WebSocket
handler and its cleanup, which insert and delete, lock it. So the loop is never entered while a client is registered
or removed (`Kept.writes_reads`), but nothing keeps two broadcasts apart: each of two operations that can get to the
loop can go up to it alone (`approach`) and then read `api` next to the other (`enter`).

`Traffic` runs the threads with the number of clients beside them, which they do not look at. `oneAtATime_iff`: the
accesses to the client set are kept apart, under every interleaving, exactly when at most one of the operations gets to
the loop, or there never is a client. An operation that broadcasts with `api` locked (`Op.selfLocks`) is stuck before
the loop.
-/

namespace LaManchaland.Api

open Runs
open Locks (Act Pool Hold Fits Guarded Single Kept RunsAlone holdOf)

/-! ## Accesses to the client set -/

/-- The access is the loop of `broadcastUpdate`. -/
def Work.inLoop : Work → Bool
  | .clientLoop => true
  | .register | .remove => false

/-- What an access has of `api`: the loop reads it, an insertion or deletion has it locked. -/
def Work.Holds (h : Hold) : Work → Prop
  | .clientLoop => 0 < h.reads
  | .register | .remove => h.writes = true

/-- What an access does to the number of clients. In the loop, `dropped` of them have a failing write; a removal may
find its client dropped before. -/
def Work.clients (dropped n : Nat) : Work → Nat
  | .register => n + 1
  | .remove => n - min dropped 1
  | .clientLoop => n - dropped

/-- The threads of the server, and how many clients there are. -/
structure Traffic where
  pool : Pool Lock Op Work
  clients : Nat

/-- The access of the next step of a thread. -/
def access (s : Pool Lock Op Work) (i : Nat) : Option Work :=
  match s.threads[i]? with
  | some (.work w :: _) => some w
  | _ => none

/-- The next action of a thread, and how many clients it drops. -/
def trafficStep (s : Traffic) (l : Nat × Nat) : Option Traffic :=
  (Locks.step prog s.pool l.1).map fun t =>
    ⟨t, (access s.pool l.1).elim s.clients (Work.clients l.2 s.clients)⟩

def Traffic.init (clients : Nat) (ops : List Op) : Traffic := ⟨Pool.init (ops.map prog), clients⟩

/-- One thread is at the loop while another one is at the client set. -/
def Overlap (s : Pool Lock Op Work) : Prop :=
  ∃ (i j : Nat) (w : Work) (rest rest' : Prog), i ≠ j ∧ s.threads[i]? = some (.work .clientLoop :: rest) ∧
    s.threads[j]? = some (.work w :: rest')

/-- There is a client that the loop is about to write to, and another thread is at the client set. -/
def Conflict (s : Traffic) : Prop := 0 < s.clients ∧ Overlap s.pool

/-- No reachable state of the concurrent operations has a conflict. -/
def OneAtATime (clients : Nat) (ops : List Op) : Prop :=
  ∀ ls s, exec trafficStep (Traffic.init clients ops) ls = some s → ¬Conflict s

/-- The operation gets to the loop, or starts a goroutine that does. -/
def Op.broadcasts : Op → Bool
  | .workersDelete body => body.isSome
  | .model (.post (some req)) start => req.isUnload || req.isLoad && start = .ready
  | .model .delete _ | .broadcastUpdate => true
  | .load start => start = .ready
  | _ => false

/-- The operation registers a client. -/
def Op.registers : Op → Bool
  | .webSocket upgraded => upgraded
  | _ => false

/-- At most one of the operations gets to the loop. -/
def AtMostOne (ops : List Op) : Prop :=
  ops.Pairwise fun op op' => op.broadcasts = false ∨ op'.broadcasts = false

/-! ## The model handler -/

/-- What `handleModel` runs on a decoded POST before the action. -/
def ModelPost.setters (req : ModelPost) : List Section :=
  [.setPaths req.path req.mmproj, .set (.setModelPath req.path), .set (.setMMProjPath req.mmproj)]
  ++ when (0 < req.ctxSize) (.set (.setCtxSize req.ctxSize))
  ++ when (req.nGPULayers ≠ 0) (.set (.setNGPU req.nGPULayers))
  ++ when (0 < req.threads) (.set (.setThreads req.threads))
  ++ when (0 < req.nPredict) (.set (.setNPredict req.nPredict))

theorem locks_of_mem_setters {req : ModelPost} {a : Section} (h : a ∈ req.setters) (start : StartOutcome) :
    ∃ k, a.locks start = locked k := by
  simp only [ModelPost.setters, List.mem_append, mem_when, List.mem_cons, List.not_mem_nil, or_false] at h
  rcases h with (((h | ⟨_, rfl⟩) | ⟨_, rfl⟩) | ⟨_, rfl⟩) | ⟨_, rfl⟩
  · rcases h with rfl | rfl | rfl
    · exact ⟨.api, rfl⟩
    · exact ⟨.llm, rfl⟩
    · exact ⟨.llm, rfl⟩
  all_goals exact ⟨.llm, rfl⟩

theorem handler_eq (req : ModelPost) : ModelRequest.handler (.post (some req)) =
    req.setters ++ (when req.isLoad .goLoad ++ if req.isUnload then [.stop, .clearLoaded, .broadcast] else []) := by
  simp [ModelRequest.handler, handleModelPost, ModelPost.setters]

theorem mem_handler {req : ModelPost} {a : Section} (h : a ∈ ModelRequest.handler (.post (some req))) :
    a ∈ req.setters ∨ (req.isLoad = true ∧ a = .goLoad) ∨
      (req.isUnload = true ∧ a ∈ ([.stop, .clearLoaded, .broadcast] : List Section)) := by
  rw [handler_eq, List.mem_append, List.mem_append, mem_when] at h
  rcases h with h | h | h
  · exact .inl h
  · exact .inr (.inl h)
  · split at h
    · rename_i hu
      exact .inr (.inr ⟨hu, h⟩)
    · cases h

theorem not_isUnload {req : ModelPost} (h : req.isLoad = true) : req.isUnload = false := by
  have h : req.action = "start" ∨ req.action = "load" := by simpa [ModelPost.isLoad] using h
  rcases h with h | h <;> simp [ModelPost.isUnload, h]

/-! ## The programs -/

section Programs

/-- The sections of a setter lead to no loop. -/
theorem not_leads_locked {k : Lock} {a : Act Lock Op Work} (ha : a ∈ locked k) :
    Locks.leads Work.inLoop Op.broadcasts a = false := by
  simp only [locked, List.mem_cons, List.not_mem_nil, or_false] at ha
  rcases ha with rfl | rfl <;> rfl

/-- A section that leads to the loop. -/
theorem leads_section {start : StartOutcome} {x : Section} {a : Act Lock Op Work} (ha : a ∈ x.locks start)
    (h : Locks.leads Work.inLoop Op.broadcasts a = true) : x = .broadcast ∨ x = .goLoad ∧ start = .ready := by
  have hlocked : ∀ k, a ∈ locked k → x = .broadcast ∨ x = .goLoad ∧ start = .ready := fun k hk => by
    rw [not_leads_locked hk] at h
    cases h
  cases x with
  | broadcast => exact .inl rfl
  | goLoad =>
    rw [Section.locks, List.mem_singleton] at ha
    subst ha
    exact .inr ⟨rfl, by simpa [Locks.leads, Op.broadcasts] using h⟩
  | copyWorkers =>
    simp only [Section.locks, List.mem_cons, List.not_mem_nil, or_false] at ha
    rcases ha with rfl | rfl | rfl | rfl <;> cases h
  | start =>
    cases start with
    | noLaunch => exact hlocked _ ha
    | _ =>
      simp only [Section.locks, List.mem_cons, List.not_mem_nil, or_false] at ha
      rcases ha with rfl | rfl | rfl <;> cases h
  | _ => exact hlocked _ ha

/-- An action of the handler of a POST that leads to the loop. -/
theorem broadcasts_of_leads {req : ModelPost} {start : StartOutcome} {a : Act Lock Op Work}
    (ha : a ∈ prog (.model (.post (some req)) start)) (h : Locks.leads Work.inLoop Op.broadcasts a = true) :
    Op.broadcasts (.model (.post (some req)) start) = true := by
  obtain ⟨x, hx, hax⟩ := List.mem_flatMap.mp ha
  rcases mem_handler hx with hx | ⟨hload, rfl⟩ | ⟨hunload, _⟩
  · obtain ⟨k, hk⟩ := locks_of_mem_setters hx start
    rw [hk] at hax
    rw [not_leads_locked hax] at h
    cases h
  · rcases leads_section hax h with hx' | ⟨_, rfl⟩
    · cases hx'
    · simp [Op.broadcasts, hload]
  · simp [Op.broadcasts, hunload]

/-- **An operation that may get to the loop broadcasts.** -/
theorem broadcasts_of_reaches {op : Op}
    (h : Locks.reaches .api Work.inLoop Op.broadcasts .none (prog op) = true) : op.broadcasts = true := by
  cases op with
  | workersDelete body =>
    cases body with
    | none => cases h
    | some req => rfl
  | addWorker method body =>
    rw [prog] at h
    split at h <;> cases h
  | removeRPCWorker inRange => cases inRange <;> cases h
  | model r start =>
    cases r with
    | delete => rfl
    | post body =>
      cases body with
      | none => cases h
      | some req =>
        obtain ⟨a, ha, hl⟩ := Locks.exists_leads h
        exact broadcasts_of_leads ha hl
  | load start =>
    cases start with
    | ready => rfl
    | _ => cases h
  | webSocket upgraded => cases upgraded <;> cases h
  | broadcastUpdate => rfl
  | _ => cases h

/-- A section that is entered without `api` is left without it. -/
theorem guarded_section (start : StartOutcome) (x : Section) (p : Prog) (hp : Guarded .api Work.Holds .none p) :
    Guarded .api Work.Holds .none (x.locks start ++ p) := by
  have hlocked : ∀ k, Guarded .api Work.Holds .none (locked k ++ p) := fun k => by
    cases k <;> exact hp
  cases x with
  | goLoad => exact hp
  | copyWorkers => exact hp
  | start =>
    cases start with
    | noLaunch => exact hlocked _
    | _ => exact hp
  | broadcast => exact ⟨Nat.one_pos, hp⟩
  | _ => exact hlocked _

/-- Only the start of a load starts a goroutine that gets to the loop. -/
theorem go_section {start : StartOutcome} {x : Section} (hx : x ≠ .goLoad) (o : Op) (h : .go o ∈ x.locks start) :
    o.broadcasts = false := by
  by_contra ho
  rcases leads_section h (by simpa [Locks.leads] using ho) with rfl | ⟨rfl, _⟩
  · simp [Section.locks, broadcastLocks] at h
  · exact hx rfl

theorem go_flatMap {start : StartOutcome} {l : List Section} (hl : .goLoad ∉ l) (o : Op)
    (h : .go o ∈ l.flatMap (Section.locks start)) : o.broadcasts = false := by
  obtain ⟨x, hx, h⟩ := List.mem_flatMap.mp h
  exact go_section (by rintro rfl; exact hl hx) o h

theorem goLoad_notMem_setters (req : ModelPost) : .goLoad ∉ req.setters := by
  simp [ModelPost.setters, mem_when]

/-- The handler of a load. -/
theorem handler_load {req : ModelPost} (h : req.isLoad = true) :
    ModelRequest.handler (.post (some req)) = req.setters ++ [.goLoad] := by
  simp [handler_eq, h, not_isUnload h, when]

/-- **A program that starts a load** which gets to the loop does so at its end. -/
theorem single_op (op : Op) : Single .api Work.inLoop Op.broadcasts .none (prog op) := by
  cases op with
  | workersDelete body => cases body <;> trivial
  | addWorker method body =>
    rw [prog]
    split <;> trivial
  | removeRPCWorker inRange => cases inRange <;> trivial
  | model r start =>
    cases r with
    | delete => exact Single.of_not_may (go_flatMap (by simp [ModelRequest.handler, handleModelDelete])) _
    | post body =>
      cases body with
      | none => trivial
      | some req =>
        cases hload : req.isLoad with
        | true =>
          rw [prog, handler_load hload, List.flatMap_append]
          have hlast : ∀ h, Single .api Work.inLoop Op.broadcasts h
              ([Section.goLoad].flatMap (Section.locks start)) := fun _ => ⟨fun _ => rfl, trivial⟩
          exact Single.append (go_flatMap (goLoad_notMem_setters req)) hlast _
        | false =>
          refine Single.of_not_may (go_flatMap fun hgo => ?_) _
          rcases mem_handler hgo with hgo | ⟨hload', _⟩ | ⟨_, hgo⟩
          · exact goLoad_notMem_setters req hgo
          · rw [hload] at hload'
            cases hload'
          · simp at hgo
  | load start =>
    refine Single.of_not_may (go_flatMap ?_) _
    cases start <;> simp [ranSections, loadGoroutine]
  | webSocket upgraded => cases upgraded <;> exact Single.of_not_may (by simp [prog, Op.broadcasts]) _
  | _ => trivial

theorem guarded_op (op : Op) : Guarded .api Work.Holds .none (prog op) := by
  cases op with
  | workersDelete body =>
    cases body with
    | none => trivial
    | some req => exact ⟨Nat.succ_pos _, trivial⟩
  | addWorker method body =>
    rw [prog]
    split
    · exact ⟨Nat.one_pos, Nat.one_pos, trivial⟩
    · trivial
  | addRPCWorker => exact ⟨Nat.one_pos, trivial⟩
  | removeRPCWorker inRange =>
    cases inRange with
    | false => trivial
    | true => exact ⟨Nat.one_pos, trivial⟩
  | model r start => exact Guarded.flatMap fun x _ => guarded_section start x
  | load start => exact Guarded.flatMap fun x _ => guarded_section start x
  | webSocket upgraded =>
    cases upgraded with
    | false => trivial
    | true => exact ⟨rfl, trivial⟩
  | wsCleanup => exact ⟨rfl, trivial⟩
  | broadcastUpdate => exact ⟨Nat.one_pos, trivial⟩
  | _ => trivial

theorem fits_op (op : Op) : Fits .api Work.Holds Work.inLoop Op.broadcasts (prog op) :=
  ⟨guarded_op op, single_op op⟩

end Programs

/-! ## The number of clients -/

section Number

/-- The threads run as they do without the number. -/
theorem exec_pool : ∀ (ls : List (Nat × Nat)) (s t : Traffic), exec trafficStep s ls = some t →
    exec (Locks.step prog) s.pool (ls.map Prod.fst) = some t.pool
  | [], s, t, h => by cases h; rfl
  | l :: ls, s, t, h => by
    obtain ⟨u, hu, h⟩ := exec_cons_some h
    obtain ⟨p, hp, rfl⟩ := Option.map_eq_some_iff.mp hu
    rw [List.map_cons, exec_cons, hp]
    exact exec_pool ls _ t h

/-- Every run of the threads is one that drops no client. -/
theorem exec_traffic : ∀ (ls : List Nat) (p q : Pool Lock Op Work) (n : Nat), exec (Locks.step prog) p ls = some q →
    ∃ m, n ≤ m ∧ exec trafficStep ⟨p, n⟩ (ls.map fun i => (i, 0)) = some ⟨q, m⟩
  | [], p, q, n, h => by cases h; exact ⟨n, le_refl n, rfl⟩
  | i :: ls, p, q, n, h => by
    obtain ⟨u, hu, h⟩ := exec_cons_some h
    have hle : n ≤ (access p i).elim n (Work.clients 0 n) := by
      cases access p i with
      | none => exact le_refl n
      | some w => cases w <;> simp [Work.clients]
    obtain ⟨m, hm, hrun⟩ := exec_traffic ls u q ((access p i).elim n (Work.clients 0 n)) h
    refine ⟨m, hle.trans hm, ?_⟩
    rw [List.map_cons, exec_cons]
    simp only [trafficStep, hu, Option.map_some, Option.bind_some]
    exact hrun

/-- The program registers no client, and starts no operation that does. -/
def NoRegister (p : Prog) : Prop := .work .register ∉ p ∧ ∀ o, .go o ∈ p → o.registers = false

theorem NoRegister.tail {a : Act Lock Op Work} {p : Prog} (h : NoRegister (a :: p)) : NoRegister p :=
  ⟨fun hp => h.1 (List.mem_cons_of_mem _ hp), fun o ho => h.2 o (List.mem_cons_of_mem _ ho)⟩

theorem noRegister_section (start : StartOutcome) (x : Section) : NoRegister (x.locks start) := by
  cases x with
  | start => cases start <;> simp [NoRegister, Section.locks, locked, Op.registers]
  | _ => simp [NoRegister, Section.locks, locked, broadcastLocks, Op.registers]

theorem noRegister_flatMap (start : StartOutcome) (l : List Section) :
    NoRegister (l.flatMap (Section.locks start)) := by
  constructor
  · intro h
    obtain ⟨x, _, hx⟩ := List.mem_flatMap.mp h
    exact (noRegister_section start x).1 hx
  · intro o h
    obtain ⟨x, _, hx⟩ := List.mem_flatMap.mp h
    exact (noRegister_section start x).2 o hx

/-- Only a WebSocket request registers a client. -/
theorem noRegister_prog {op : Op} (h : op.registers = false) : NoRegister (prog op) := by
  cases op with
  | model r start => exact noRegister_flatMap start _
  | load start => exact noRegister_flatMap start _
  | workersDelete body => cases body <;> simp [NoRegister, prog, locked, broadcastLocks]
  | addWorker method body =>
    rw [prog]
    split <;> simp [NoRegister, locked, broadcastInside, broadcastLocks]
  | removeRPCWorker inRange => cases inRange <;> simp [NoRegister, prog, locked, broadcastInside, broadcastLocks]
  | webSocket upgraded =>
    have h : upgraded = false := h
    subst h
    simp [NoRegister, prog]
  | _ => simp [NoRegister, prog, locked, broadcastInside, broadcastLocks]

/-- Without a client at the start and a WebSocket request there never is one. -/
theorem no_clients {ops : List Op} (h : ∀ op ∈ ops, op.registers = false) {ls : List (Nat × Nat)} {s : Traffic}
    (hs : exec trafficStep (Traffic.init 0 ops) ls = some s) : s.clients = 0 := by
  refine (exec_invariant (I := fun s => s.clients = 0 ∧ ∀ p ∈ s.pool.threads, NoRegister p) ?_ ⟨rfl, ?_⟩ hs).1
  · rintro s l t ⟨hzero, hno⟩ ht
    obtain ⟨u, hu, rfl⟩ := Option.map_eq_some_iff.mp ht
    refine ⟨?_, ?_⟩
    · show (access s.pool l.1).elim s.clients (Work.clients l.2 s.clients) = 0
      unfold access
      split
      · rename_i w rest hw
        have hnot := (hno _ (List.mem_of_getElem? hw)).1
        cases w with
        | register => exact absurd List.mem_cons_self hnot
        | _ => simp [Work.clients, hzero]
      · exact hzero
    · rcases Locks.step_hold .api hu with ⟨hts, _⟩ | ⟨a, rest, new, m⟩
      · rw [hts]
        exact hno
      · exact m.forall_programs (fun _ _ hp => hp.tail)
          (fun o p hp => noRegister_prog (hp.2 o List.mem_cons_self)) hno
  · intro p hp
    obtain ⟨op, hop, rfl⟩ := List.mem_map.mp hp
    exact noRegister_prog (h op hop)

end Number

/-! ## At most one -/

/-- In a state that is kept nothing overlaps. -/
theorem not_overlap {s : Pool Lock Op Work} (hs : Kept .api Work.Holds Work.inLoop Op.broadcasts s) :
    ¬Overlap s := by
  rintro ⟨i, j, w, rest, rest', hij, hi, hj⟩
  have hreads : 0 < (holdOf s .api i).reads := hs.needed hi
  -- the other access is the loop as well, or has `api` locked
  cases hw : w.inLoop with
  | true => exact hij (hs.mark_unique hi hj rfl hw)
  | false =>
    have hwrites : (holdOf s .api j).writes = true := by
      have := hs.needed hj
      cases w with
      | clientLoop => cases hw
      | _ => exact this
    rw [hs.writes_reads hwrites] at hreads
    omega

/-- The operations of which at most one broadcasts are kept apart. -/
theorem AtMostOne.not_overlap {ops : List Op} (h : AtMostOne ops) {ls : List Nat} {s : Pool Lock Op Work}
    (hs : exec (Locks.step prog) (Pool.init (ops.map prog)) ls = some s) : ¬Overlap s := by
  refine Api.not_overlap (Locks.kept_exec fits_op (fun _ => broadcasts_of_reaches) (Locks.kept_init ?_ ?_) hs)
  · intro p hp
    obtain ⟨op, _, rfl⟩ := List.mem_map.mp hp
    exact fits_op op
  · intro i j p q hp hq hr hr'
    rw [List.getElem?_map] at hp hq
    obtain ⟨op, hop, rfl⟩ := Option.map_eq_some_iff.mp hp
    obtain ⟨op', hop', rfl⟩ := Option.map_eq_some_iff.mp hq
    obtain ⟨hi, rfl⟩ := List.getElem?_eq_some_iff.mp hop
    obtain ⟨hj, rfl⟩ := List.getElem?_eq_some_iff.mp hop'
    have hb := broadcasts_of_reaches hr
    have hb' := broadcasts_of_reaches hr'
    have hpair := List.pairwise_iff_getElem.mp h
    rcases Nat.lt_trichotomy i j with hlt | heq | hlt
    · rcases hpair i j hi hj hlt with hn | hn <;> simp [hb, hb'] at hn
    · exact heq
    · rcases hpair j i hj hi hlt with hn | hn <;> simp [hb, hb'] at hn

/-! ## Two of them -/

section Two

variable {s : Pool Lock Op Work} {i : Nat}

theorem runsAlone_section (start : StartOutcome) (x : Section) (hx : x ≠ .broadcast) :
    RunsAlone prog (x.locks start) := by
  cases x with
  | goLoad => exact .go _
  | copyWorkers => exact .nested (by decide)
  | start =>
    cases start with
    | noLaunch => exact .locked _
    | _ => exact .locked_go _ _
  | broadcast => exact absurd rfl hx
  | _ => exact .locked _

/-- Before its broadcast, or at the end of the handler of a load, an operation runs alone. -/
theorem runsAlone_flatMap {start : StartOutcome} {l : List Section} (hl : .broadcast ∉ l) :
    RunsAlone prog (l.flatMap (Section.locks start)) :=
  RunsAlone.flatMap fun x hx => runsAlone_section start x (by rintro rfl; exact hl hx)

/-- The rest of a thread that will broadcast next. -/
inductive AtBroadcast : Prog → Prop
  | broadcast (rest : Prog) : AtBroadcast (broadcastLocks ++ rest)
  | remove (rest : Prog) : AtBroadcast (.rlock .api :: locked .disc ++ broadcastLocks ++ rest)

/-- No writer is at `api`, and nobody is at `disc`. -/
structure CanEnter (s : Pool Lock Op Work) : Prop where
  api : s.writer .api = .free
  disc : s.writer .disc = .free
  discReaders : s.readers .disc = []

theorem AllFree.canEnter (h : AllFree s) : CanEnter s := ⟨(h .api).1, (h .disc).1, (h .disc).2⟩

/-- A thread at `broadcastUpdate` can enter the loop, next to other readers of `api`. -/
theorem enter_loop (hs : CanEnter s) {rest : Prog} (hi : s.threads[i]? = some (broadcastLocks ++ rest)) :
    ∃ ls t, exec (Locks.step prog) s ls = some t ∧ CanEnter t ∧
      t.threads = s.threads.set i (.work .clientLoop :: .runlock .api :: rest) := by
  have hlt := (List.getElem?_eq_some_iff.mp hi).1
  let s₁ : Pool Lock Op Work :=
    { s with
      threads := s.threads.set i (.rlock .disc :: .runlock .disc :: .work .clientLoop :: .runlock .api :: rest)
      readers := Function.update s.readers .api (i :: s.readers .api) }
  have h₁ : exec (Locks.step prog) s [i] = some s₁ := Locks.exec_rlock hi hs.api
  have hi₁ : s₁.threads[i]? = some (.rlock .disc :: .runlock .disc :: .work .clientLoop :: .runlock .api :: rest) := by
    simp [s₁, hlt]
  let s₂ : Pool Lock Op Work := { s₁ with threads := s₁.threads.set i (.work .clientLoop :: .runlock .api :: rest) }
  have h₂ : exec (Locks.step prog) s₁ [i, i] = some s₂ := Locks.exec_rlock_runlock hi₁ hs.disc
  refine ⟨[i] ++ [i, i], s₂, exec_trans h₁ h₂, ⟨hs.api, hs.disc, ?_⟩, ?_⟩
  · simp [s₂, s₁, hs.discReaders]
  · simp [s₂, s₁]

/-- So can a thread that will broadcast next. -/
theorem enter (hs : CanEnter s) {p : Prog} (hp : AtBroadcast p) (hi : s.threads[i]? = some p) :
    ∃ ls t rest, exec (Locks.step prog) s ls = some t ∧ CanEnter t ∧
      t.threads = s.threads.set i (.work .clientLoop :: rest) := by
  cases hp with
  | broadcast rest =>
    obtain ⟨ls, t, hls, ht, hts⟩ := enter_loop hs hi
    exact ⟨ls, t, _, hls, ht, hts⟩
  | remove rest =>
    have hlt := (List.getElem?_eq_some_iff.mp hi).1
    let s₁ : Pool Lock Op Work :=
      { s with
        threads := s.threads.set i (broadcastLocks ++ rest)
        readers := Function.update s.readers .api (i :: s.readers .api) }
    have h₁ : exec (Locks.step prog) s ([i] ++ [i, i, i]) = some s₁ :=
      exec_removal hi hs.api hs.disc hs.discReaders
    have hi₁ : s₁.threads[i]? = some (broadcastLocks ++ rest) := by simp [s₁, hlt]
    have hs₁ : CanEnter s₁ := ⟨hs.api, hs.disc, by simp [s₁, hs.discReaders]⟩
    obtain ⟨ls, t, hls, ht, hts⟩ := enter_loop hs₁ hi₁
    refine ⟨[i] ++ [i, i, i] ++ ls, t, .runlock .api :: rest, exec_trans h₁ hls, ht, ?_⟩
    rw [hts]
    simp [s₁]

/-- Thread `i`, or one that it has started, has run from `s` to `t`. -/
structure RanAlone (s t : Pool Lock Op Work) (i : Nat) : Prop where
  free : AllFree t
  length : s.threads.length ≤ t.threads.length
  others : ∀ j q, j ≠ i → s.threads[j]? = some q → t.threads[j]? = some q

theorem RanAlone.trans {t u : Pool Lock Op Work} {i' : Nat} (h : RanAlone s t i) (h' : RanAlone t u i')
    (hi' : i' = i ∨ s.threads.length ≤ i') : RanAlone s u i := by
  refine ⟨h'.free, h.length.trans h'.length, fun j q hj hq => h'.others j q ?_ (h.others j q hj hq)⟩
  have hlt := (List.getElem?_eq_some_iff.mp hq).1
  rintro rfl
  rcases hi' with hi' | hi'
  · exact hj hi'
  · omega

/-- A thread runs the first part of its program. -/
theorem ranAlone_part (hfree : AllFree s) {b p : Prog} (hb : RunsAlone prog b) (hi : s.threads[i]? = some (b ++ p)) :
    ∃ ls t, exec (Locks.step prog) s ls = some t ∧ RanAlone s t i ∧ t.threads[i]? = some p := by
  obtain ⟨ls, new, hls⟩ := hb s i p hfree hi
  exact ⟨ls, _, hls, ⟨hfree, by simp, fun j q hj hq => Threads.getElem?_move_ne hq hj⟩, Threads.getElem?_move_self hi⟩

/-- The goroutine of a load with a `Start` that succeeds gets to its broadcast. -/
theorem approach_load (hfree : AllFree s) (hi : s.threads[i]? = some (prog (.load .ready))) :
    ∃ ls t, exec (Locks.step prog) s ls = some t ∧ RanAlone s t i ∧ t.threads[i]? = some (broadcastLocks ++ []) := by
  have hb : RunsAlone prog (([.copyWorkers, .start, .setLoaded] : List Section).flatMap (Section.locks .ready)) :=
    runsAlone_flatMap (by simp)
  exact ranAlone_part hfree hb hi

/-- The handler of a load starts its goroutine. -/
theorem approach_goLoad (hfree : AllFree s) {req : ModelPost} {start : StartOutcome} (hload : req.isLoad = true)
    (hi : s.threads[i]? = some (prog (.model (.post (some req)) start))) :
    ∃ ls t i', exec (Locks.step prog) s ls = some t ∧ RanAlone s t i ∧ s.threads.length ≤ i' ∧
      t.threads[i']? = some (prog (.load start)) := by
  rw [prog, handler_load hload, List.flatMap_append] at hi
  have hb : RunsAlone prog (req.setters.flatMap (Section.locks start)) :=
    runsAlone_flatMap (by simp [ModelPost.setters, mem_when])
  obtain ⟨ls, t, hls, hrun, ht⟩ := ranAlone_part hfree hb hi
  let u : Pool Lock Op Work := { t with threads := t.threads.set i [] ++ [prog (.load start)] }
  have hgo : exec (Locks.step prog) t [i] = some u := by
    have ht : t.threads[i]? = some [.go (.load start)] := ht
    simp [Locks.step, ht, u]
  refine ⟨ls ++ [i], u, t.threads.length, exec_trans hls hgo, hrun.trans ⟨hrun.free, by simp [u], ?_⟩ (.inl rfl),
    hrun.length, by simp [u]⟩
  exact fun j q hj hq => Threads.getElem?_move_ne hq hj

/-- The handler of an unload gets to its broadcast. -/
theorem approach_unload (hfree : AllFree s) {req : ModelPost} {start : StartOutcome} (hunload : req.isUnload = true)
    (hload : req.isLoad = false) (hi : s.threads[i]? = some (prog (.model (.post (some req)) start))) :
    ∃ ls t, exec (Locks.step prog) s ls = some t ∧ RanAlone s t i ∧ t.threads[i]? = some (broadcastLocks ++ []) := by
  have hb : RunsAlone prog ((req.setters ++ [Section.stop, Section.clearLoaded]).flatMap (Section.locks start)) :=
    runsAlone_flatMap (by simp [ModelPost.setters, mem_when])
  have hprog : prog (.model (.post (some req)) start) =
      (req.setters ++ [Section.stop, Section.clearLoaded]).flatMap (Section.locks start) ++ (broadcastLocks ++ []) := by
    rw [prog, handler_eq]
    simp [hload, hunload, when, Section.locks]
  rw [hprog] at hi
  exact ranAlone_part hfree hb hi

/-- The DELETE of the model gets to its broadcast. -/
theorem approach_delete (hfree : AllFree s) {start : StartOutcome}
    (hi : s.threads[i]? = some (prog (.model .delete start))) :
    ∃ ls t, exec (Locks.step prog) s ls = some t ∧ RanAlone s t i ∧ t.threads[i]? = some (broadcastLocks ++ []) := by
  have hb : RunsAlone prog (([.stop, .clearModel] : List Section).flatMap (Section.locks start)) :=
    runsAlone_flatMap (by simp)
  exact ranAlone_part hfree hb hi

/-- **An operation that broadcasts** gets, when all locks are free, up to its broadcast, or a goroutine that it has
started does. -/
theorem approach (hfree : AllFree s) {op : Op} (hb : op.broadcasts = true) (hi : s.threads[i]? = some (prog op)) :
    ∃ ls t i' p, exec (Locks.step prog) s ls = some t ∧ RanAlone s t i ∧ (i' = i ∨ s.threads.length ≤ i') ∧
      AtBroadcast p ∧ t.threads[i']? = some p := by
  have hnow : ∀ p, AtBroadcast p → s.threads[i]? = some p → ∃ ls t i' p, exec (Locks.step prog) s ls = some t ∧
      RanAlone s t i ∧ (i' = i ∨ s.threads.length ≤ i') ∧ AtBroadcast p ∧ t.threads[i']? = some p :=
    fun p hp hi => ⟨[], s, i, p, rfl, ⟨hfree, le_refl _, fun _ _ _ hq => hq⟩, .inl rfl, hp, hi⟩
  cases op with
  | workersDelete body =>
    cases body with
    | none => cases hb
    | some req => exact hnow _ (.remove _) hi
  | broadcastUpdate => exact hnow _ (.broadcast []) hi
  | load start =>
    have hready : start = .ready := by simpa [Op.broadcasts] using hb
    subst hready
    obtain ⟨ls, t, hls, hrun, ht⟩ := approach_load hfree hi
    exact ⟨ls, t, i, _, hls, hrun, .inl rfl, .broadcast [], ht⟩
  | model r start =>
    cases r with
    | delete =>
      obtain ⟨ls, t, hls, hrun, ht⟩ := approach_delete hfree hi
      exact ⟨ls, t, i, _, hls, hrun, .inl rfl, .broadcast [], ht⟩
    | post body =>
      cases body with
      | none => cases hb
      | some req =>
        cases hload : req.isLoad with
        | true =>
          have hready : start = .ready := by simpa [Op.broadcasts, hload, not_isUnload hload] using hb
          subst hready
          obtain ⟨ls, t, i', hls, hrun, hi', ht⟩ := approach_goLoad hfree hload hi
          obtain ⟨ls', u, hls', hrun', hu⟩ := approach_load hrun.free ht
          exact ⟨ls ++ ls', u, i', _, exec_trans hls hls', hrun.trans hrun' (.inr hi'), .inr hi', .broadcast [], hu⟩
        | false =>
          have hunload : req.isUnload = true := by simpa [Op.broadcasts, hload] using hb
          obtain ⟨ls, t, hls, hrun, ht⟩ := approach_unload hfree hunload hload hi
          exact ⟨ls, t, i, _, hls, hrun, .inl rfl, .broadcast [], ht⟩
  | _ => cases hb

/-- **Two operations that broadcast** can be at the loop at once. -/
theorem overlap_of_two (hfree : AllFree s) {j : Nat} (hij : i ≠ j) {op op' : Op}
    (hi : s.threads[i]? = some (prog op)) (hj : s.threads[j]? = some (prog op')) (hb : op.broadcasts = true)
    (hb' : op'.broadcasts = true) : ∃ ls t, exec (Locks.step prog) s ls = some t ∧ Overlap t := by
  have hltj := (List.getElem?_eq_some_iff.mp hj).1
  -- both go up to their broadcasts, one after the other
  obtain ⟨ls₁, s₁, i', p, h₁, hrun₁, hi', hp, hp₁⟩ := approach hfree hb hi
  obtain ⟨ls₂, s₂, j', q, h₂, hrun₂, hj', hq, hq₂⟩ := approach hrun₁.free hb' (hrun₁.others j _ hij.symm hj)
  have hlti' := (List.getElem?_eq_some_iff.mp hp₁).1
  have hne : i' ≠ j := by
    rintro rfl
    rcases hi' with hi' | hi'
    · exact hij hi'.symm
    · omega
  have hne' : i' ≠ j' := by
    rintro rfl
    rcases hj' with hj' | hj'
    · exact hne hj'
    · omega
  have hp₂ : s₂.threads[i']? = some p := hrun₂.others i' p hne hp₁
  -- then both enter the loop
  obtain ⟨ls₃, s₃, rest, h₃, hs₃, hts₃⟩ := enter hrun₂.free.canEnter hp hp₂
  have hq₃ : s₃.threads[j']? = some q := by
    rw [hts₃, List.getElem?_set_ne hne']
    exact hq₂
  obtain ⟨ls₄, s₄, rest', h₄, _, hts₄⟩ := enter hs₃ hq hq₃
  refine ⟨ls₁ ++ (ls₂ ++ (ls₃ ++ ls₄)), s₄, exec_trans h₁ (exec_trans h₂ (exec_trans h₃ h₄)),
    i', j', .clientLoop, rest, rest', hne', ?_, ?_⟩
  · have hlt := (List.getElem?_eq_some_iff.mp hp₂).1
    rw [hts₄, List.getElem?_set_ne (Ne.symm hne'), hts₃, List.getElem?_set_self hlt]
  · have hlt := (List.getElem?_eq_some_iff.mp hq₃).1
    rw [hts₄, List.getElem?_set_self hlt]

/-- With a client, they write to it at once. -/
theorem conflict_of_two (hfree : AllFree s) {n j : Nat} (hn : 0 < n) (hij : i ≠ j) {op op' : Op}
    (hi : s.threads[i]? = some (prog op)) (hj : s.threads[j]? = some (prog op')) (hb : op.broadcasts = true)
    (hb' : op'.broadcasts = true) : ∃ ls t, exec trafficStep ⟨s, n⟩ ls = some t ∧ Conflict t := by
  obtain ⟨ls, t, hls, ht⟩ := overlap_of_two hfree hij hi hj hb hb'
  obtain ⟨m, hm, hrun⟩ := exec_traffic ls s t n hls
  exact ⟨_, _, hrun, hn.trans_le hm, ht⟩

/-- A WebSocket request can register its client before everything else. -/
theorem register_first (hfree : AllFree s) (n : Nat) (hi : s.threads[i]? = some (prog (.webSocket true))) :
    ∃ ls t m, exec trafficStep ⟨s, n⟩ ls = some ⟨t, m⟩ ∧ 0 < m ∧ RanAlone s t i := by
  have hlt := (List.getElem?_eq_some_iff.mp hi).1
  let s₁ : Pool Lock Op Work :=
    { s with
      threads := s.threads.set i [.work .register, .unlock .api, .go .wsCleanup]
      writer := Function.update s.writer .api (.holding i) }
  have h₁ : exec (Locks.step prog) s [i, i] = some s₁ := Locks.exec_lock hi (hfree .api).1 (hfree .api).2
  obtain ⟨m, hm, hrun₁⟩ := exec_traffic _ s s₁ n h₁
  let s₂ : Pool Lock Op Work := { s₁ with threads := s₁.threads.set i [.unlock .api, .go .wsCleanup] }
  have hrun₂ : exec trafficStep ⟨s₁, m⟩ [(i, 0)] = some ⟨s₂, m + 1⟩ := by
    have hi₁ : s₁.threads[i]? = some [.work .register, .unlock .api, .go .wsCleanup] := by simp [s₁, hlt]
    simp [trafficStep, Locks.step, access, hi₁, Work.clients, s₂]
  have hi₂ : s₂.threads[i]? = some [.unlock .api, .go .wsCleanup] := by simp [s₂, s₁, hlt]
  let s₃ : Pool Lock Op Work :=
    { s₂ with threads := s₂.threads.set i [.go .wsCleanup], writer := Function.update s₂.writer .api .free }
  have h₃ : exec (Locks.step prog) s₂ [i] = some s₃ := Locks.exec_unlock hi₂ (by simp [s₂, s₁])
  obtain ⟨m', hm', hrun₃⟩ := exec_traffic _ s₂ s₃ (m + 1) h₃
  have hfree₃ : AllFree s₃ := by
    intro k
    obtain ⟨hw, hr⟩ := hfree k
    by_cases hk : k = .api
    · subst hk
      exact ⟨by simp [s₃], hr⟩
    · simp [s₃, s₂, s₁, hk, hw, hr]
  have hothers : ∀ j q, j ≠ i → s.threads[j]? = some q → s₃.threads[j]? = some q := by
    intro j q hj hq
    simp only [s₃, s₂, s₁, List.getElem?_set_ne (Ne.symm hj)]
    exact hq
  exact ⟨_, s₃, m', exec_trans hrun₁ (exec_trans hrun₂ hrun₃), by omega, hfree₃, by simp [s₃, s₂, s₁], hothers⟩

end Two

/-! ## Exactly when -/

/-- **The accesses to the client set are kept apart exactly when at most one operation broadcasts**, under every
interleaving, or there never is a client. -/
theorem oneAtATime_iff (clients : Nat) (ops : List Op) :
    OneAtATime clients ops ↔ AtMostOne ops ∨ clients = 0 ∧ ∀ op ∈ ops, op.registers = false := by
  constructor
  · intro h
    by_contra hne
    rw [not_or] at hne
    obtain ⟨htwo, hclient⟩ := hne
    simp only [AtMostOne, List.pairwise_iff_getElem, not_forall, not_or, Bool.not_eq_false] at htwo
    obtain ⟨i, j, hi, hj, hij, hb, hb'⟩ := htwo
    have hi₀ := init_thread (List.getElem?_eq_getElem hi)
    have hj₀ := init_thread (List.getElem?_eq_getElem hj)
    rcases Nat.eq_zero_or_pos clients with rfl | hpos
    · -- a client is registered first
      simp only [true_and, not_forall, Bool.not_eq_false] at hclient
      obtain ⟨op, hop, hregisters⟩ := hclient
      obtain ⟨k, hk⟩ := List.mem_iff_getElem?.mp hop
      have hsocket : op = .webSocket true := by
        cases op with
        | webSocket upgraded => exact congrArg Op.webSocket hregisters
        | _ => cases hregisters
      subst hsocket
      have hki : i ≠ k := by
        rintro rfl
        rw [List.getElem?_eq_getElem hi, Option.some.injEq] at hk
        rw [hk] at hb
        cases hb
      have hkj : j ≠ k := by
        rintro rfl
        rw [List.getElem?_eq_getElem hj, Option.some.injEq] at hk
        rw [hk] at hb'
        cases hb'
      obtain ⟨ls, t, m, hls, hm, hrun⟩ := register_first allFree_init 0 (init_thread hk)
      obtain ⟨ls', u, hls', hc⟩ := conflict_of_two hrun.free hm (Nat.ne_of_lt hij) (hrun.others i _ hki hi₀)
        (hrun.others j _ hkj hj₀) hb hb'
      exact h _ u (exec_trans hls hls') hc
    · obtain ⟨ls, t, hls, hc⟩ := conflict_of_two allFree_init hpos (Nat.ne_of_lt hij) hi₀ hj₀ hb hb'
      exact h ls t hls hc
  · rintro (hone | ⟨rfl, hnone⟩) ls s hs ⟨hpos, hover⟩
    · exact hone.not_overlap (exec_pool ls _ s hs) hover
    · rw [no_clients hnone hs] at hpos
      omega

/-- A POST of `action`. -/
def postAction (action : String) : ModelRequest := .post (some ⟨"model.gguf", "", action, 0, 0, 0, 0⟩)

/-- Two unloads at once. -/
def twoUnloads : List Op := [.model (postAction "unload") .noLaunch, .model (postAction "unload") .noLaunch]

/-- Two unloads can write to a client at once. -/
theorem unloads_conflict : ¬∀ (clients : Nat) (ops : List Op), OneAtATime clients ops := by
  intro h
  have h₀ : twoUnloads[0]? = some (.model (postAction "unload") .noLaunch) := rfl
  have h₁ : twoUnloads[1]? = some (.model (postAction "unload") .noLaunch) := rfl
  obtain ⟨ls, t, ht, hc⟩ := conflict_of_two allFree_init Nat.one_pos (by decide) (init_thread h₀) (init_thread h₁)
    (by decide) (by decide)
  exact h 1 twoUnloads ls t ht hc

end LaManchaland.Api
