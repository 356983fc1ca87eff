import Mathlib.Data.Finset.Max
import Mathlib.Logic.Function.Basic
import LaManchaland.Lib.Runs
import LaManchaland.Lib.Threads

/-!
# Threads that take reader-writer locks

A pool of threads runs programs of lock actions (`Act`) over locks `K`; a thread may start another thread (`go`).
A writer first announces itself, which needs that no other writer has (`waiting`), and gets the lock when the readers
have left (`holding`); while a writer is announced, no new reader enters. Locks are not re-entrant. A mutex is a lock
that nobody reads.

`WaitsFor s i j`: thread `i` cannot go on before thread `j` has released the lock that `i` asks for. A `Deadlock` is a
non-empty set of threads that all wait, each only for members of the set.

`Ordered` is the lock discipline of a program: a lock is taken only when it ranks above every lock held, except that a
lock which no thread ever writes may be read again. `no_deadlock`: a pool of such programs never reaches a deadlock.

For the other direction, `exec_lock` and the lemmas after it run one thread among idle ones, and `RunsAlone` says of a
part of a program that a thread gets through it when all locks are free.
-/

namespace Locks

open Runs

variable {K O W : Type*}

/-- The actions of a thread: on locks, starting the thread of `o`, and a step outside the locks. -/
inductive Act (K O W : Type*) where
  | lock (k : K)
  | unlock (k : K)
  | rlock (k : K)
  | runlock (k : K)
  | go (o : O)
  | work (w : W)

/-- The writer side of a lock: an announced writer waits for the readers to leave. -/
inductive Writer where
  | free
  | waiting (i : Nat)
  | holding (i : Nat)
  deriving DecidableEq

/-- The rest of each thread's program, and for each lock its writer side and its readers. -/
structure Pool (K O W : Type*) where
  threads : List (List (Act K O W))
  writer : K → Writer
  readers : K → List Nat

/-- All locks free. -/
def Pool.init (ts : List (List (Act K O W))) : Pool K O W := ⟨ts, fun _ => .free, fun _ => []⟩

section Step

variable [DecidableEq K] (prog : O → List (Act K O W))

/-- The next action of thread `i`. -/
def step (s : Pool K O W) (i : Nat) : Option (Pool K O W) :=
  match s.threads[i]? with
  | none | some [] => none
  | some (.lock k :: rest) =>
    match s.writer k with
    | .free => some { s with writer := Function.update s.writer k (.waiting i) }
    | .waiting j =>
      if j = i ∧ s.readers k = [] then
        some { s with threads := s.threads.set i rest, writer := Function.update s.writer k (.holding i) }
      else none
    | .holding _ => none
  | some (.unlock k :: rest) =>
    if s.writer k = .holding i then
      some { s with threads := s.threads.set i rest, writer := Function.update s.writer k .free }
    else none
  | some (.rlock k :: rest) =>
    if s.writer k = .free then
      some { s with threads := s.threads.set i rest, readers := Function.update s.readers k (i :: s.readers k) }
    else none
  | some (.runlock k :: rest) =>
    if i ∈ s.readers k then
      some { s with
        threads := s.threads.set i rest, readers := Function.update s.readers k ((s.readers k).erase i) }
    else none
  | some (.go o :: rest) => some { s with threads := s.threads.set i rest ++ [prog o] }
  | some (.work _ :: rest) => some { s with threads := s.threads.set i rest }

end Step

/-! ## Waiting -/

/-- Thread `i` asks for a lock that it cannot get before thread `j` has released it. -/
inductive WaitsFor (s : Pool K O W) (i j : Nat) : Prop
  | writerHolds {k : K} {rest : List (Act K O W)} (hi : s.threads[i]? = some (.lock k :: rest))
      (hw : s.writer k = .holding j)
  | writerFirst {k : K} {rest : List (Act K O W)} (hi : s.threads[i]? = some (.lock k :: rest))
      (hw : s.writer k = .waiting j) (hne : j ≠ i)
  | readerInside {k : K} {rest : List (Act K O W)} (hi : s.threads[i]? = some (.lock k :: rest))
      (hw : s.writer k = .waiting i) (hr : j ∈ s.readers k)
  | readHolds {k : K} {rest : List (Act K O W)} (hi : s.threads[i]? = some (.rlock k :: rest))
      (hw : s.writer k = .holding j)
  | readAfter {k : K} {rest : List (Act K O W)} (hi : s.threads[i]? = some (.rlock k :: rest))
      (hw : s.writer k = .waiting j)

/-- A non-empty set of waiting threads, each of which waits only for members of the set. -/
def Deadlock (s : Pool K O W) (S : Finset Nat) : Prop :=
  S.Nonempty ∧ ∀ i ∈ S, (∃ j, WaitsFor s i j) ∧ ∀ j, WaitsFor s i j → j ∈ S

/-- A thread that waits for itself is a deadlock if it waits for no other. -/
theorem deadlock_self {s : Pool K O W} {i : Nat} (h : WaitsFor s i i) (h' : ∀ j, WaitsFor s i j → j = i) :
    Deadlock s {i} := by
  refine ⟨Finset.singleton_nonempty i, fun j hj => ?_⟩
  rw [Finset.mem_singleton] at hj
  subst hj
  exact ⟨⟨j, h⟩, fun k hk => Finset.mem_singleton.mpr (h' k hk)⟩

/-- Two threads that wait only for each other. -/
theorem deadlock_pair {s : Pool K O W} {i j : Nat} (hij : WaitsFor s i j) (hji : WaitsFor s j i)
    (hi : ∀ k, WaitsFor s i k → k = j) (hj : ∀ k, WaitsFor s j k → k = i) : Deadlock s {i, j} := by
  refine ⟨⟨i, by simp⟩, fun k hk => ?_⟩
  rw [Finset.mem_insert, Finset.mem_singleton] at hk
  rcases hk with rfl | rfl
  · exact ⟨⟨_, hij⟩, fun l hl => by simp [hi l hl]⟩
  · exact ⟨⟨_, hji⟩, fun l hl => by simp [hj l hl]⟩

/-! ## The lock discipline -/

section Discipline

variable [DecidableEq K] (rank : K → Nat) (readOnly : K → Prop) (good : O → Prop)

/-- The program takes its locks in the order of their ranks, given the locks `H` that the thread holds, and starts
only good threads. A read-only lock is never written and may be read again. -/
def Ordered : List K → List (Act K O W) → Prop
  | _, [] => True
  | H, .lock k :: p => (¬readOnly k ∧ ∀ h ∈ H, rank h < rank k) ∧ Ordered (k :: H) p
  | H, .unlock k :: p => Ordered (H.erase k) p
  | H, .rlock k :: p => (readOnly k ∨ ∀ h ∈ H, rank h < rank k) ∧ Ordered (k :: H) p
  | H, .runlock k :: p => Ordered (H.erase k) p
  | H, .go o :: p => good o ∧ Ordered H p
  | H, .work _ :: p => Ordered H p

/-- How often thread `i` holds lock `k`. -/
def holdCount (s : Pool K O W) (i : Nat) (k : K) : Nat :=
  (s.readers k).count i + if s.writer k = .holding i then 1 else 0

/-- The state of the locks agrees with the programs. -/
structure Inv (s : Pool K O W) : Prop where
  /-- Every thread follows the discipline, given a list of locks that covers those it holds. -/
  ordered : ∀ i p, s.threads[i]? = some p →
    ∃ H, Ordered rank readOnly good H p ∧ ∀ k, holdCount s i k ≤ H.count k
  /-- An announced writer is at its `lock`. -/
  waiting : ∀ k i, s.writer k = .waiting i → ∃ rest, s.threads[i]? = some (.lock k :: rest)
  /-- Only threads of the pool hold locks. -/
  bound : ∀ k i, 0 < holdCount s i k → i < s.threads.length
  /-- Nobody writes a read-only lock. -/
  unwritten : ∀ k, readOnly k → s.writer k = .free

end Discipline

/-! ## What a step does -/

section Steps

variable [DecidableEq K] {prog : O → List (Act K O W)} {s t : Pool K O W} {i : Nat}

/-- **What a step does**: the action of the thread and the new pool. -/
inductive StepSpec (prog : O → List (Act K O W)) (s : Pool K O W) (i : Nat) : Pool K O W → Prop
  | announce {k : K} {rest : List (Act K O W)} (hi : s.threads[i]? = some (.lock k :: rest))
      (hw : s.writer k = .free) : StepSpec prog s i { s with writer := Function.update s.writer k (.waiting i) }
  | lock {k : K} {rest : List (Act K O W)} (hi : s.threads[i]? = some (.lock k :: rest))
      (hw : s.writer k = .waiting i) (hr : s.readers k = []) : StepSpec prog s i
        { s with threads := s.threads.set i rest, writer := Function.update s.writer k (.holding i) }
  | unlock {k : K} {rest : List (Act K O W)} (hi : s.threads[i]? = some (.unlock k :: rest))
      (hw : s.writer k = .holding i) : StepSpec prog s i
        { s with threads := s.threads.set i rest, writer := Function.update s.writer k .free }
  | rlock {k : K} {rest : List (Act K O W)} (hi : s.threads[i]? = some (.rlock k :: rest))
      (hw : s.writer k = .free) : StepSpec prog s i
        { s with threads := s.threads.set i rest, readers := Function.update s.readers k (i :: s.readers k) }
  | runlock {k : K} {rest : List (Act K O W)} (hi : s.threads[i]? = some (.runlock k :: rest))
      (hr : i ∈ s.readers k) : StepSpec prog s i { s with
        threads := s.threads.set i rest, readers := Function.update s.readers k ((s.readers k).erase i) }
  | go {o : O} {rest : List (Act K O W)} (hi : s.threads[i]? = some (.go o :: rest)) :
      StepSpec prog s i { s with threads := s.threads.set i rest ++ [prog o] }
  | work {w : W} {rest : List (Act K O W)} (hi : s.threads[i]? = some (.work w :: rest)) :
      StepSpec prog s i { s with threads := s.threads.set i rest }

theorem step_spec (h : step prog s i = some t) : StepSpec prog s i t := by
  unfold step at h
  split at h
  · cases h
  · cases h
  · rename_i k rest hi
    split at h
    · rename_i hw; cases h; exact .announce hi hw
    · rename_i j hw
      split at h
      · rename_i hj
        obtain ⟨rfl, hr⟩ := hj
        cases h; exact .lock hi hw hr
      · cases h
    · cases h
  · rename_i k rest hi
    split at h
    · rename_i hw; cases h; exact .unlock hi hw
    · cases h
  · rename_i k rest hi
    split at h
    · rename_i hw; cases h; exact .rlock hi hw
    · cases h
  · rename_i k rest hi
    split at h
    · rename_i hr; cases h; exact .runlock hi hr
    · cases h
  · rename_i o rest hi; cases h; exact .go hi
  · rename_i w rest hi; cases h; exact .work hi

end Steps

/-! ## The discipline is kept -/

section Preservation

variable [DecidableEq K] {rank : K → Nat} {readOnly : K → Prop} {good : O → Prop} {prog : O → List (Act K O W)}
  {s t : Pool K O W} {i : Nat}

/-- A change of the writer side of lock `k`. -/
theorem holdCount_writer (s : Pool K O W) (ts : List (List (Act K O W))) (k k' : K) (w : Writer) (j : Nat) :
    holdCount { s with threads := ts, writer := Function.update s.writer k w } j k' =
      if k' = k then (s.readers k).count j + (if w = .holding j then 1 else 0) else holdCount s j k' := by
  unfold holdCount
  by_cases hk : k' = k
  · subst hk; simp
  · simp [hk]

/-- A change of the readers of lock `k`. -/
theorem holdCount_readers (s : Pool K O W) (ts : List (List (Act K O W))) (k k' : K) (rs : List Nat) (j : Nat) :
    holdCount { s with threads := ts, readers := Function.update s.readers k rs } j k' =
      if k' = k then rs.count j + (if s.writer k = .holding j then 1 else 0) else holdCount s j k' := by
  unfold holdCount
  by_cases hk : k' = k
  · subst hk; simp
  · simp [hk]

/-- The invariant after thread `i` went past its action `a`: its rest follows the discipline with what it holds now,
the others hold what they held, and no other thread announced itself. -/
theorem Inv.advance (hs : Inv rank readOnly good s) {a : Act K O W} {rest : List (Act K O W)}
    (new : List (List (Act K O W))) (hi : s.threads[i]? = some (a :: rest))
    (hts : t.threads = s.threads.set i rest ++ new)
    (hown : ∃ H, Ordered rank readOnly good H rest ∧ ∀ k, holdCount t i k ≤ H.count k)
    (hother : ∀ j k, j ≠ i → holdCount t j k = holdCount s j k)
    (hnew : ∀ p ∈ new, Ordered rank readOnly good [] p)
    (hwait : ∀ k j, t.writer k = .waiting j → s.writer k = .waiting j ∧ a ≠ .lock k)
    (hro : ∀ k, readOnly k → t.writer k = .free) : Inv rank readOnly good t := by
  have hlt : i < s.threads.length := (List.getElem?_eq_some_iff.mp hi).1
  have hlen : s.threads.length ≤ t.threads.length := by rw [hts]; simp
  refine ⟨fun j p hp => ?_, fun k j hk => ?_, fun k j hk => ?_, hro⟩
  · rw [hts] at hp
    rcases Threads.getElem?_move hp with ⟨rfl, rfl⟩ | ⟨hj, hp⟩ | ⟨hj, hp⟩
    · exact hown
    · obtain ⟨H, hH, hc⟩ := hs.ordered j p hp
      exact ⟨H, hH, fun k => by rw [hother j k hj]; exact hc k⟩
    · -- a new thread holds nothing, since only threads of the pool hold locks
      refine ⟨[], hnew p hp, fun k => ?_⟩
      rw [hother j k (by omega)]
      by_contra hpos
      have := hs.bound k j (Nat.pos_of_ne_zero (by simpa using hpos))
      omega
  · obtain ⟨hk, ha⟩ := hwait k j hk
    obtain ⟨r, hr⟩ := hs.waiting k j hk
    have hj : j ≠ i := by
      rintro rfl
      rw [hi] at hr
      simp only [Option.some.injEq, List.cons.injEq] at hr
      exact ha hr.1
    exact ⟨r, by rw [hts]; exact Threads.getElem?_move_ne hr hj⟩
  · by_cases hj : j = i
    · omega
    · rw [hother j k hj] at hk
      have := hs.bound k j hk
      omega

/-- The invariant after a writer has announced itself. -/
theorem Inv.announce (hs : Inv rank readOnly good s) {k : K} {rest : List (Act K O W)}
    (hi : s.threads[i]? = some (.lock k :: rest)) (hw : s.writer k = .free) :
    Inv rank readOnly good { s with writer := Function.update s.writer k (.waiting i) } := by
  obtain ⟨H, ⟨⟨hro, _⟩, _⟩, _⟩ := hs.ordered i _ hi
  have hsame : ∀ j k', holdCount { s with writer := Function.update s.writer k (.waiting i) } j k' =
      holdCount s j k' := by
    intro j k'
    rw [holdCount_writer s s.threads]
    split
    · rename_i hk; subst hk; simp [holdCount, hw]
    · rfl
  refine ⟨fun j p hp => ?_, fun k' j hk => ?_, fun k' j hk => ?_, fun k' hk => ?_⟩
  · obtain ⟨H', hH, hc⟩ := hs.ordered j p hp
    exact ⟨H', hH, fun k' => by rw [hsame]; exact hc k'⟩
  · by_cases hkk : k' = k
    · subst hkk
      simp only [Function.update_self, Writer.waiting.injEq] at hk
      exact ⟨rest, by rw [← hk]; exact hi⟩
    · simp only [Function.update_of_ne hkk] at hk
      exact hs.waiting k' j hk
  · rw [hsame] at hk
    exact hs.bound k' j hk
  · have hkk : k' ≠ k := by rintro rfl; exact hro hk
    simpa [Function.update_of_ne hkk] using hs.unwritten k' hk

/-- The invariant after thread `i` has taken or released the writer side of lock `k`. -/
theorem Inv.setWriter (hs : Inv rank readOnly good s) {k : K} {w : Writer} {a : Act K O W} {rest : List (Act K O W)}
    (hi : s.threads[i]? = some (a :: rest)) (ha : ∀ k', k' ≠ k → a ≠ .lock k') (hwait : ∀ j, w ≠ .waiting j)
    (hother : ∀ j, j ≠ i → s.writer k ≠ .holding j ∧ w ≠ .holding j) (hro : readOnly k → w = .free)
    (hown : ∃ H, Ordered rank readOnly good H rest ∧
      (s.readers k).count i + (if w = .holding i then 1 else 0) ≤ H.count k ∧
      ∀ k', k' ≠ k → holdCount s i k' ≤ H.count k') :
    Inv rank readOnly good
      { s with threads := s.threads.set i rest, writer := Function.update s.writer k w } := by
  obtain ⟨H, hH, hk, hc⟩ := hown
  refine hs.advance [] hi (by simp) ⟨H, hH, fun k' => ?_⟩ (fun j k' hj => ?_) (by simp) (fun k' j hw => ?_)
    fun k' hk' => ?_
  · rw [holdCount_writer]
    split
    · rename_i he; rw [he]; exact hk
    · rename_i he; exact hc k' he
  · obtain ⟨hs₁, hw₁⟩ := hother j hj
    rw [holdCount_writer]
    split
    · rename_i he; subst he; simp [holdCount, hs₁]
    · rfl
  · by_cases he : k' = k
    · subst he
      simp only [Function.update_self] at hw
      exact absurd hw (hwait j)
    · simp only [Function.update_of_ne he] at hw
      exact ⟨hw, ha k' he⟩
  · by_cases he : k' = k
    · subst he
      simpa using hro hk'
    · simpa [Function.update_of_ne he] using hs.unwritten k' hk'

/-- The invariant after thread `i` has entered or left the readers of lock `k`. -/
theorem Inv.setReaders (hs : Inv rank readOnly good s) {k : K} {rs : List Nat} {a : Act K O W}
    {rest : List (Act K O W)} (hi : s.threads[i]? = some (a :: rest)) (ha : ∀ k', a ≠ .lock k')
    (hother : ∀ j, j ≠ i → rs.count j = (s.readers k).count j)
    (hown : ∃ H, Ordered rank readOnly good H rest ∧
      rs.count i + (if s.writer k = .holding i then 1 else 0) ≤ H.count k ∧
      ∀ k', k' ≠ k → holdCount s i k' ≤ H.count k') :
    Inv rank readOnly good
      { s with threads := s.threads.set i rest, readers := Function.update s.readers k rs } := by
  obtain ⟨H, hH, hk, hc⟩ := hown
  refine hs.advance [] hi (by simp) ⟨H, hH, fun k' => ?_⟩ (fun j k' hj => ?_) (by simp)
    (fun k' j hw => ⟨hw, ha k'⟩) hs.unwritten
  · rw [holdCount_readers]
    split
    · rename_i he; rw [he]; exact hk
    · rename_i he; exact hc k' he
  · rw [holdCount_readers]
    split
    · rename_i he; subst he; simp [holdCount, hother j hj]
    · rfl

/-- Every step keeps the invariant. -/
theorem inv_step (hprog : ∀ o, good o → Ordered rank readOnly good [] (prog o)) (hs : Inv rank readOnly good s)
    (h : step prog s i = some t) : Inv rank readOnly good t := by
  cases step_spec h with
  | @announce k rest hi hw => exact hs.announce hi hw
  | @lock k rest hi hw hr =>
    obtain ⟨H, ⟨⟨hro, _⟩, hH⟩, hc⟩ := hs.ordered i _ hi
    refine hs.setWriter hi (fun k' hk => by simpa using Ne.symm hk) (by simp) (fun j hj => ?_)
      (fun hk => absurd hk hro) ⟨k :: H, hH, by simp [hr], fun k' hk => ?_⟩
    · simp [hw, Ne.symm hj]
    · rw [List.count_cons_of_ne (Ne.symm hk)]
      exact hc k'
  | @unlock k rest hi hw =>
    obtain ⟨H, hH, hc⟩ := hs.ordered i _ hi
    refine hs.setWriter hi (by simp) (by simp) (fun j hj => ?_) (fun _ => rfl) ⟨H.erase k, hH, ?_, fun k' hk => ?_⟩
    · simp [hw, Ne.symm hj]
    · have := hc k
      simp only [holdCount, hw, ↓reduceIte] at this
      rw [List.count_erase_self]
      simp; omega
    · rw [List.count_erase_of_ne hk]
      exact hc k'
  | @rlock k rest hi hw =>
    obtain ⟨H, ⟨_, hH⟩, hc⟩ := hs.ordered i _ hi
    refine hs.setReaders hi (by simp) (fun j hj => ?_) ⟨k :: H, hH, ?_, fun k' hk => ?_⟩
    · rw [List.count_cons_of_ne (Ne.symm hj)]
    · have := hc k
      simp only [holdCount] at this
      rw [List.count_cons_self, List.count_cons_self]
      omega
    · rw [List.count_cons_of_ne (Ne.symm hk)]
      exact hc k'
  | @runlock k rest hi hr =>
    obtain ⟨H, hH, hc⟩ := hs.ordered i _ hi
    refine hs.setReaders hi (by simp) (fun j hj => ?_) ⟨H.erase k, hH, ?_, fun k' hk => ?_⟩
    · rw [List.count_erase_of_ne hj]
    · have := hc k
      have hpos : 0 < (s.readers k).count i := List.count_pos_iff.mpr hr
      simp only [holdCount] at this
      rw [List.count_erase_self, List.count_erase_self]
      omega
    · rw [List.count_erase_of_ne hk]
      exact hc k'
  | @go o rest hi =>
    obtain ⟨H, ⟨hgo, hH⟩, hc⟩ := hs.ordered i _ hi
    exact hs.advance [prog o] hi rfl ⟨H, hH, hc⟩ (fun _ _ _ => rfl)
      (fun p hp => by rw [List.mem_singleton.mp hp]; exact hprog o hgo) (fun _ _ hk => ⟨hk, by simp⟩) hs.unwritten
  | @work w rest hi =>
    obtain ⟨H, hH, hc⟩ := hs.ordered i _ hi
    exact hs.advance [] hi (by simp) ⟨H, hH, hc⟩ (fun _ _ _ => rfl) (by simp)
      (fun _ _ hk => ⟨hk, by simp⟩) hs.unwritten

/-- The pool of programs that follow the discipline, with all locks free. -/
theorem inv_init {ts : List (List (Act K O W))} (h : ∀ p ∈ ts, Ordered rank readOnly good [] p) :
    Inv rank readOnly good (Pool.init ts) := by
  refine ⟨fun i p hp => ⟨[], h p (List.mem_of_getElem? hp), fun k => by simp [holdCount, Pool.init]⟩, ?_, ?_,
    fun _ _ => rfl⟩
  · intro k i hk; cases hk
  · intro k i hk; simp [holdCount, Pool.init] at hk

end Preservation

/-! ## No deadlock -/

section Want

variable {rank : K → Nat} {s : Pool K O W} {i : Nat} {k : K} {rest : List (Act K O W)}

/-- The rank of the lock that a thread asks for; an announced writer ranks just above those who still ask. -/
def want (rank : K → Nat) (s : Pool K O W) (i : Nat) : Nat :=
  match s.threads[i]? with
  | some (.lock k :: _) => 2 * rank k + if s.writer k = .waiting i then 1 else 0
  | some (.rlock k :: _) => 2 * rank k
  | _ => 0

theorem want_lock (hi : s.threads[i]? = some (.lock k :: rest)) :
    want rank s i = 2 * rank k + if s.writer k = .waiting i then 1 else 0 := by
  simp [want, hi]

theorem want_rlock (hi : s.threads[i]? = some (.rlock k :: rest)) : want rank s i = 2 * rank k := by
  simp [want, hi]

end Want

section NoDeadlock

variable [DecidableEq K] {rank : K → Nat} {readOnly : K → Prop} {good : O → Prop} {prog : O → List (Act K O W)}
  {s t : Pool K O W} {i j : Nat}

/-- A waiting thread asks for a lock that ranks above every lock it holds. -/
theorem want_of_holds (hs : Inv rank readOnly good s) {k : K} (hk : 0 < holdCount s i k)
    (hw : ∃ j, WaitsFor s i j) : 2 * rank k + 2 ≤ want rank s i := by
  have hmem : ∀ {p}, s.threads[i]? = some p → ∃ H, Ordered rank readOnly good H p ∧ k ∈ H := by
    intro p hp
    obtain ⟨H, hH, hc⟩ := hs.ordered i p hp
    exact ⟨H, hH, List.count_pos_iff.mp (Nat.lt_of_lt_of_le hk (hc k))⟩
  have hlock : ∀ {k' rest}, s.threads[i]? = some (.lock k' :: rest) → 2 * rank k + 2 ≤ want rank s i := by
    intro k' rest hi
    obtain ⟨H, ⟨⟨_, hlt⟩, _⟩, hkH⟩ := hmem hi
    have := hlt k hkH
    rw [want_lock hi]
    omega
  -- a reader waits only at a lock that somebody writes, so it takes no read-only lock again
  have hrlock : ∀ {k' rest}, s.threads[i]? = some (.rlock k' :: rest) → s.writer k' ≠ .free →
      2 * rank k + 2 ≤ want rank s i := by
    intro k' rest hi hne
    obtain ⟨H, ⟨hro | hlt, _⟩, hkH⟩ := hmem hi
    · exact absurd (hs.unwritten k' hro) hne
    · have := hlt k hkH
      rw [want_rlock hi]
      omega
  obtain ⟨j, hj⟩ := hw
  cases hj with
  | writerHolds hi _ => exact hlock hi
  | writerFirst hi _ _ => exact hlock hi
  | readerInside hi _ _ => exact hlock hi
  | readHolds hi hw => exact hrlock hi (by rw [hw]; exact Writer.noConfusion)
  | readAfter hi hw => exact hrlock hi (by rw [hw]; exact Writer.noConfusion)

/-- Waiting climbs: a thread asks for less than the waiting thread that it waits for. -/
theorem want_lt (hs : Inv rank readOnly good s) (h : WaitsFor s i j) (hw : ∃ l, WaitsFor s j l) :
    want rank s i < want rank s j := by
  have holding : ∀ {k}, s.writer k = .holding j → 2 * rank k + 2 ≤ want rank s j := fun {k} hk =>
    want_of_holds hs (by simp [holdCount, hk]) hw
  have announced : ∀ {k}, s.writer k = .waiting j → 2 * rank k + 1 = want rank s j := by
    intro k hk
    obtain ⟨rest, hr⟩ := hs.waiting k j hk
    rw [want_lock hr, if_pos hk]
  cases h with
  | writerHolds hi hk =>
    have := holding hk
    rw [want_lock hi]
    split <;> omega
  | writerFirst hi hk hne =>
    have := announced hk
    have hne' : ¬j = i := hne
    rw [want_lock hi, hk]
    simp only [Writer.waiting.injEq, hne', ↓reduceIte]
    omega
  | @readerInside k rest hi hk hr =>
    have hpos : 0 < holdCount s j k := by
      have := List.count_pos_iff.mpr hr
      unfold holdCount
      omega
    have := want_of_holds hs hpos hw
    rw [want_lock hi]
    split <;> omega
  | readHolds hi hk =>
    have := holding hk
    rw [want_rlock hi]
    omega
  | readAfter hi hk =>
    have := announced hk
    rw [want_rlock hi]
    omega

/-- A pool that follows the discipline is in no deadlock. -/
theorem Inv.not_deadlock (hs : Inv rank readOnly good s) (S : Finset Nat) : ¬Deadlock s S := by
  rintro ⟨hne, hS⟩
  obtain ⟨i, hi, hmax⟩ := S.exists_max_image (want rank s) hne
  obtain ⟨⟨j, hj⟩, hin⟩ := hS i hi
  have hjS : j ∈ S := hin j hj
  have := want_lt hs hj (hS j hjS).1
  have := hmax j hjS
  omega

/-- **Deadlock freedom by lock order**: a pool of programs that follow the discipline never reaches a deadlock. -/
theorem no_deadlock (hprog : ∀ o, good o → Ordered rank readOnly good [] (prog o)) {ts : List (List (Act K O W))}
    (hts : ∀ p ∈ ts, Ordered rank readOnly good [] p) {ls : List Nat}
    (h : exec (step prog) (Pool.init ts) ls = some s) (S : Finset Nat) : ¬Deadlock s S :=
  (exec_invariant (fun _ _ _ hs ht => inv_step hprog hs ht) (inv_init hts) h).not_deadlock S

end NoDeadlock

/-! ## Programs built from sections -/

section Sections

variable [DecidableEq K] {rank : K → Nat} {readOnly : K → Prop} {good : O → Prop}

/-- A piece of program that follows the discipline from no locks to no locks. -/
def Balanced (rank : K → Nat) (readOnly : K → Prop) (good : O → Prop) (b : List (Act K O W)) : Prop :=
  ∀ p, Ordered rank readOnly good [] p → Ordered rank readOnly good [] (b ++ p)

theorem Balanced.nil : Balanced rank readOnly good ([] : List (Act K O W)) := fun _ h => h

theorem Balanced.append {b c : List (Act K O W)} (hb : Balanced rank readOnly good b)
    (hc : Balanced rank readOnly good c) : Balanced rank readOnly good (b ++ c) := by
  intro p hp
  rw [List.append_assoc]
  exact hb _ (hc p hp)

theorem Balanced.flatMap {α : Type*} {f : α → List (Act K O W)} {l : List α}
    (h : ∀ a ∈ l, Balanced rank readOnly good (f a)) : Balanced rank readOnly good (l.flatMap f) := by
  induction l with
  | nil => exact .nil
  | cons a l ih =>
    rw [List.flatMap_cons]
    exact (h a List.mem_cons_self).append (ih fun b hb => h b (List.mem_cons_of_mem _ hb))

theorem Balanced.ordered {b : List (Act K O W)} (h : Balanced rank readOnly good b) :
    Ordered rank readOnly good [] b := by
  have := h [] trivial
  rwa [List.append_nil] at this

/-- A section under one written lock. -/
theorem Balanced.locked {k : K} (hk : ¬readOnly k) :
    Balanced rank readOnly good ([.lock k, .unlock k] : List (Act K O W)) := by
  intro p hp
  refine ⟨⟨hk, by simp⟩, ?_⟩
  simpa [Ordered] using hp

/-- A section under one lock that is read. -/
theorem Balanced.rlocked (k : K) :
    Balanced rank readOnly good ([.rlock k, .runlock k] : List (Act K O W)) := by
  intro p hp
  refine ⟨.inr (by simp), ?_⟩
  simpa [Ordered] using hp

end Sections

/-! ## Runs of one thread among idle ones -/

section Solo

variable [DecidableEq K] {prog : O → List (Act K O W)} {s : Pool K O W} {i : Nat} {k : K} {rest : List (Act K O W)}

/-- A thread takes a free lock. -/
theorem exec_lock (hi : s.threads[i]? = some (.lock k :: rest)) (hw : s.writer k = .free) (hr : s.readers k = []) :
    exec (step prog) s [i, i] =
      some { s with threads := s.threads.set i rest, writer := Function.update s.writer k (.holding i) } := by
  simp [step, hi, hw, hr]

/-- A thread releases a lock that it has locked. -/
theorem exec_unlock (hi : s.threads[i]? = some (.unlock k :: rest)) (hw : s.writer k = .holding i) :
    exec (step prog) s [i] =
      some { s with threads := s.threads.set i rest, writer := Function.update s.writer k .free } := by
  simp [step, hi, hw]

/-- A thread takes a free lock and releases it. -/
theorem exec_lock_unlock (hi : s.threads[i]? = some (.lock k :: .unlock k :: rest)) (hw : s.writer k = .free)
    (hr : s.readers k = []) : exec (step prog) s [i, i, i] = some { s with threads := s.threads.set i rest } := by
  have hlt := (List.getElem?_eq_some_iff.mp hi).1
  have hfree : Function.update s.writer k Writer.free = s.writer := by rw [← hw, Function.update_eq_self]
  rw [show [i, i, i] = [i, i] ++ [i] from rfl, exec_append, exec_lock hi hw hr]
  simp [step, hlt, hfree]

/-- A thread reads a free lock. -/
theorem exec_rlock (hi : s.threads[i]? = some (.rlock k :: rest)) (hw : s.writer k = .free) :
    exec (step prog) s [i] = some { s with
      threads := s.threads.set i rest, readers := Function.update s.readers k (i :: s.readers k) } := by
  simp [step, hi, hw]

/-- A writer announces itself at a lock that is read. -/
theorem exec_announce (hi : s.threads[i]? = some (.lock k :: rest)) (hw : s.writer k = .free) :
    exec (step prog) s [i] = some { s with writer := Function.update s.writer k (.waiting i) } := by
  simp [step, hi, hw]

/-- A thread enters the readers of a lock and leaves them. -/
theorem exec_rlock_runlock (hi : s.threads[i]? = some (.rlock k :: .runlock k :: rest)) (hw : s.writer k = .free) :
    exec (step prog) s [i, i] = some { s with threads := s.threads.set i rest } := by
  have hlt := (List.getElem?_eq_some_iff.mp hi).1
  rw [show [i, i] = [i] ++ [i] from rfl, exec_append, exec_rlock hi hw]
  simp [step, hlt]

/-- A thread that reads a lock which it has taken waits for itself. -/
theorem lock_rlock_deadlock (hi : s.threads[i]? = some (.lock k :: .rlock k :: rest)) (hw : s.writer k = .free)
    (hr : s.readers k = []) : ∃ t, exec (step prog) s [i, i] = some t ∧ Deadlock t {i} := by
  have hlt := (List.getElem?_eq_some_iff.mp hi).1
  refine ⟨_, exec_lock hi hw hr, ?_⟩
  have hi' : (s.threads.set i (.rlock k :: rest))[i]? = some (.rlock k :: rest) := by simp [hlt]
  refine deadlock_self (.readHolds hi' (by simp)) fun j hj => ?_
  cases hj with
  | writerHolds h _ => rw [hi'] at h; cases h
  | writerFirst h _ _ => rw [hi'] at h; cases h
  | readerInside h _ _ => rw [hi'] at h; cases h
  | readHolds h hh => rw [hi'] at h; cases h; simpa [eq_comm] using hh
  | readAfter h hh => rw [hi'] at h; cases h; simp at hh

/-- A reader that reads its lock again waits for a writer that has announced itself in between, and the writer waits
for the reader. -/
theorem reread_deadlock {j : Nat} {rest' : List (Act K O W)} (hi : s.threads[i]? = some (.rlock k :: rest))
    (hj : s.threads[j]? = some (.lock k :: rest')) (hr : s.readers k = [i]) (hw : s.writer k = .free) :
    ∃ t, exec (step prog) s [j] = some t ∧ Deadlock t {i, j} := by
  refine ⟨_, exec_announce hj hw, deadlock_pair (.readAfter hi (by simp)) (.readerInside hj (by simp) (by simp [hr]))
    (fun l hl => ?_) fun l hl => ?_⟩
  · cases hl with
    | writerHolds h _ => rw [hi] at h; cases h
    | writerFirst h _ _ => rw [hi] at h; cases h
    | readerInside h _ _ => rw [hi] at h; cases h
    | readHolds h hh => rw [hi] at h; cases h; simp at hh
    | readAfter h hh => rw [hi] at h; cases h; simpa [eq_comm] using hh
  · cases hl with
    | writerHolds h hh => rw [hj] at h; cases h; simp at hh
    | writerFirst h hh hne => rw [hj] at h; cases h; exact absurd (by simpa [eq_comm] using hh) hne
    | readerInside h _ hh => rw [hj] at h; cases h; simpa [hr] using hh
    | readHolds h _ => rw [hj] at h; cases h
    | readAfter h _ => rw [hj] at h; cases h

end Solo

/-! ## Parts of a program that a thread can run alone -/

section RunsAlone

variable [DecidableEq K] {prog : O → List (Act K O W)}

/-- When all locks are free, a thread can run the part `b`; it leaves them free, and may have started threads. -/
def RunsAlone (prog : O → List (Act K O W)) (b : List (Act K O W)) : Prop :=
  ∀ (s : Pool K O W) (i : Nat) (rest : List (Act K O W)), (∀ k, s.writer k = .free ∧ s.readers k = []) →
    s.threads[i]? = some (b ++ rest) →
    ∃ ls new, exec (step prog) s ls = some { s with threads := s.threads.set i rest ++ new }

theorem RunsAlone.nil : RunsAlone prog [] := by
  intro s i rest _ hi
  obtain ⟨hlt, hget⟩ := List.getElem?_eq_some_iff.mp hi
  refine ⟨[], [], ?_⟩
  rw [List.append_nil, exec_nil, show rest = s.threads[i] from hget.symm, List.set_getElem_self]

theorem RunsAlone.append {b b' : List (Act K O W)} (h : RunsAlone prog b) (h' : RunsAlone prog b') :
    RunsAlone prog (b ++ b') := by
  intro s i rest hfree hi
  rw [List.append_assoc] at hi
  have hlt := (List.getElem?_eq_some_iff.mp hi).1
  obtain ⟨ls, new, hls⟩ := h s i (b' ++ rest) hfree hi
  obtain ⟨ls', new', hls'⟩ := h' { s with threads := s.threads.set i (b' ++ rest) ++ new } i rest hfree
    (Threads.getElem?_move_self hi)
  refine ⟨ls ++ ls', new ++ new', ?_⟩
  rw [exec_trans hls hls']
  simp [hlt]

theorem RunsAlone.flatMap {α : Type*} {l : List α} {f : α → List (Act K O W)}
    (h : ∀ a ∈ l, RunsAlone prog (f a)) : RunsAlone prog (l.flatMap f) := by
  induction l with
  | nil => exact .nil
  | cons a l ih =>
    rw [List.flatMap_cons]
    exact (h a List.mem_cons_self).append (ih fun b hb => h b (List.mem_cons_of_mem _ hb))

theorem RunsAlone.locked (k : K) : RunsAlone prog [.lock k, .unlock k] := by
  intro s i rest hfree hi
  refine ⟨[i, i, i], [], ?_⟩
  rw [List.append_nil]
  exact exec_lock_unlock hi (hfree k).1 (hfree k).2

/-- A locked section of another lock under a lock. -/
theorem RunsAlone.nested {k k' : K} (hk : k' ≠ k) :
    RunsAlone prog [.lock k, .lock k', .unlock k', .unlock k] := by
  intro s i rest hfree hi
  have hlt := (List.getElem?_eq_some_iff.mp hi).1
  let s₁ : Pool K O W :=
    { s with
      threads := s.threads.set i (.lock k' :: .unlock k' :: .unlock k :: rest)
      writer := Function.update s.writer k (.holding i) }
  have h₁ : exec (step prog) s [i, i] = some s₁ := exec_lock hi (hfree k).1 (hfree k).2
  have hi₁ : s₁.threads[i]? = some (.lock k' :: .unlock k' :: .unlock k :: rest) := by simp [s₁, hlt]
  let s₂ : Pool K O W := { s₁ with threads := s₁.threads.set i (.unlock k :: rest) }
  have h₂ : exec (step prog) s₁ [i, i, i] = some s₂ :=
    exec_lock_unlock hi₁ (by simp [s₁, hk, (hfree k').1]) (hfree k').2
  have h₃ : exec (step prog) s₂ [i] = some { s with threads := s.threads.set i rest } := by
    have hi₂ : s₂.threads[i]? = some (.unlock k :: rest) := by simp [s₂, s₁, hlt]
    have hback : Function.update s.writer k Writer.free = s.writer := by rw [← (hfree k).1, Function.update_eq_self]
    rw [exec_unlock hi₂ (by simp [s₂, s₁])]
    simp [s₂, s₁, hback]
  refine ⟨[i, i] ++ ([i, i, i] ++ [i]), [], ?_⟩
  rw [exec_trans h₁ (exec_trans h₂ h₃), List.append_nil]

/-- A part that starts a thread. -/
theorem RunsAlone.go (o : O) : RunsAlone prog [.go o] := by
  intro s i rest _ hi
  exact ⟨[i], [prog o], by simp [step, show s.threads[i]? = some (.go o :: rest) from hi]⟩

/-- A part that starts a thread under a lock. -/
theorem RunsAlone.locked_go (k : K) (o : O) : RunsAlone prog [.lock k, .go o, .unlock k] := by
  intro s i rest hfree hi
  have hlt := (List.getElem?_eq_some_iff.mp hi).1
  let s₁ : Pool K O W :=
    { s with
      threads := s.threads.set i (.go o :: .unlock k :: rest)
      writer := Function.update s.writer k (.holding i) }
  have h₁ : exec (step prog) s [i, i] = some s₁ := exec_lock hi (hfree k).1 (hfree k).2
  let s₂ : Pool K O W := { s₁ with threads := s₁.threads.set i (.unlock k :: rest) ++ [prog o] }
  have h₂ : exec (step prog) s₁ [i] = some s₂ := by simp [step, s₂, s₁, hlt]
  have h₃ : exec (step prog) s₂ [i] = some { s with threads := s.threads.set i rest ++ [prog o] } := by
    have hi₂ : s₂.threads[i]? = some (.unlock k :: rest) := Threads.getElem?_move_self (a := .go o :: .unlock k :: rest)
      (by simp [s₁, hlt])
    have hback : Function.update s.writer k Writer.free = s.writer := by rw [← (hfree k).1, Function.update_eq_self]
    rw [exec_unlock hi₂ (by simp [s₂, s₁])]
    simp [s₂, s₁, hlt, hback]
  exact ⟨[i, i] ++ ([i] ++ [i]), [prog o], exec_trans h₁ (exec_trans h₂ h₃)⟩

end RunsAlone

end Locks
