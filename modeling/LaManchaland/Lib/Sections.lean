import Mathlib.Data.List.Infix
import LaManchaland.Lib.Runs
import LaManchaland.Lib.Threads

/-!
# Threads of atomic sections

A thread runs a program, a list of sections that are atomic on a shared state `σ`; a section may end its thread early
and may start other threads. A `Pool` is the state, the rest of each thread's program, and the log of the sections that
have run, the latest first. `advance` runs the next section of one thread, `arrive` adds a thread; `runAll` runs a
program by itself.

* `Traced`: the log and the rests agree with the programs. A rest is a suffix of the program of its thread; where no
  section ends the thread early, the sections logged for it and its rest make up its program.
-/

namespace Sections

variable {σ T A : Type*}

/-- A thread: its tag, which determines its program, and the sections it still has to run. -/
structure Thread (T A : Type*) where
  tag : T
  rest : List A
  deriving DecidableEq

/-- A section that has run. -/
structure Event (T A : Type*) where
  thread : Nat
  tag : T
  sect : A
  deriving DecidableEq

structure Pool (σ T A : Type*) where
  state : σ
  threads : List (Thread T A)
  log : List (Event T A)

/-- The pool without threads. -/
def Pool.init (s : σ) : Pool σ T A := ⟨s, [], []⟩

/-- Every thread has run its program. -/
def Pool.Finished (p : Pool σ T A) : Prop := ∀ th ∈ p.threads, th.rest = []

instance [DecidableEq A] (p : Pool σ T A) : Decidable p.Finished :=
  inferInstanceAs (Decidable (∀ th ∈ p.threads, th.rest = []))

section Step

variable (prog : T → List A)

/-- A thread of a program at its beginning. -/
def fresh (t : T) : Thread T A := ⟨t, prog t⟩

def arrive (t : T) (p : Pool σ T A) : Pool σ T A := { p with threads := p.threads ++ [fresh prog t] }

variable (spawn : T → A → List T) (run : A → σ → σ × Bool)

/-- Thread `i` runs its next section; the flag of `run` says whether it goes on. -/
def advance (i : Nat) (p : Pool σ T A) : Option (Pool σ T A) :=
  match p.threads[i]? with
  | some ⟨tag, a :: rest⟩ =>
    some ⟨(run a p.state).1,
      p.threads.set i ⟨tag, if (run a p.state).2 then rest else []⟩ ++ (spawn tag a).map (fresh prog),
      ⟨i, tag, a⟩ :: p.log⟩
  | _ => none

/-- A program that runs by itself. -/
def runAll : List A → σ → σ
  | [], s => s
  | a :: as, s => if (run a s).2 then runAll as (run a s).1 else (run a s).1

end Step

section Spec

variable {prog : T → List A} {spawn : T → A → List T} {run : A → σ → σ × Bool} {i : Nat} {p q : Pool σ T A}

/-- **What an advance does.** -/
theorem advance_some (h : advance prog spawn run i p = some q) :
    ∃ tag a rest, p.threads[i]? = some ⟨tag, a :: rest⟩ ∧ q.state = (run a p.state).1 ∧
      q.threads = p.threads.set i ⟨tag, if (run a p.state).2 then rest else []⟩ ++ (spawn tag a).map (fresh prog) ∧
      q.log = ⟨i, tag, a⟩ :: p.log := by
  unfold advance at h
  split at h
  · rename_i tag a rest hi
    cases h
    exact ⟨tag, a, rest, hi, rfl, rfl, rfl⟩
  · cases h

/-- A thread after an advance: the one that moved, another one, or a new one at the beginning of its program. -/
theorem getElem?_advance {ts : List (Thread T A)} {th x : Thread T A} {new : List T} {j : Nat}
    (h : (ts.set i x ++ new.map (fresh prog))[j]? = some th) :
    (j = i ∧ th = x) ∨ (j ≠ i ∧ ts[j]? = some th) ∨ (ts.length ≤ j ∧ ∃ t ∈ new, th = fresh prog t) := by
  rcases Threads.getElem?_move h with h | h | ⟨hj, hnew⟩
  · exact .inl h
  · exact .inr (.inl h)
  · obtain ⟨t, ht, rfl⟩ := List.mem_map.mp hnew
    exact .inr (.inr ⟨hj, t, ht, rfl⟩)

/-- The tags after an advance: those from before, and those of the new threads. -/
theorem advance_tags (h : advance prog spawn run i p = some q) : ∃ tag a rest, p.threads[i]? = some ⟨tag, a :: rest⟩ ∧
    q.threads.map Thread.tag = p.threads.map Thread.tag ++ spawn tag a := by
  obtain ⟨tag, a, rest, hi, _, hts, _⟩ := advance_some h
  refine ⟨tag, a, rest, hi, ?_⟩
  have hset : (p.threads.map Thread.tag).set i tag = p.threads.map Thread.tag := by
    obtain ⟨hlt, hget⟩ := List.getElem?_eq_some_iff.mp hi
    have hlt' : i < (p.threads.map Thread.tag).length := by simpa using hlt
    have : tag = (p.threads.map Thread.tag)[i] := by simp [hget]
    rw [this, List.set_getElem_self]
  rw [hts, List.map_append, List.map_set, hset, List.map_map]
  congr 1
  exact List.map_id _

/-- Threads keep their tags. -/
theorem advance_tag (h : advance prog spawn run i p = some q) {j : Nat} {th : Thread T A}
    (hj : p.threads[j]? = some th) : ∃ th', q.threads[j]? = some th' ∧ th'.tag = th.tag := by
  obtain ⟨tag, a, rest, hi, _, hts, _⟩ := advance_some h
  rw [hts]
  by_cases hji : j = i
  · subst hji
    rw [hi] at hj
    cases hj
    exact ⟨_, Threads.getElem?_move_self hi, rfl⟩
  · exact ⟨th, Threads.getElem?_move_ne hj hji, rfl⟩

/-- What every section keeps, a program that runs by itself keeps. -/
theorem runAll_keeps {β : Type*} (f : σ → β) (hf : ∀ a s, f (run a s).1 = f s) (as : List A) (s : σ) :
    f (runAll run as s) = f s := by
  induction as generalizing s with
  | nil => rfl
  | cons a as ih =>
    rw [runAll]
    split
    · rw [ih, hf]
    · exact hf a s

end Spec

/-! ## The log against the programs -/

/-- The sections that thread `i` has run, in order. -/
def done (i : Nat) (log : List (Event T A)) : List A := ((log.filter fun e => e.thread = i).map Event.sect).reverse

theorem done_cons_self (i : Nat) (t : T) (a : A) (log : List (Event T A)) :
    done i (⟨i, t, a⟩ :: log) = done i log ++ [a] := by
  simp [done]

theorem done_cons_ne {i j : Nat} (h : i ≠ j) (t : T) (a : A) (log : List (Event T A)) :
    done j (⟨i, t, a⟩ :: log) = done j log := by
  simp [done, h]

theorem mem_done {i : Nat} {a : A} {log : List (Event T A)} :
    a ∈ done i log ↔ ∃ e ∈ log, e.thread = i ∧ e.sect = a := by
  simp [done, and_assoc]

/-- The log and the rests agree with the programs; the sections of a thread with a `full` tag never end it early. -/
structure Traced (prog : T → List A) (full : T → Prop) (p : Pool σ T A) : Prop where
  suffix : ∀ th ∈ p.threads, th.rest <:+ prog th.tag
  done : ∀ i th, p.threads[i]? = some th → full th.tag → done i p.log ++ th.rest = prog th.tag
  logged : ∀ e ∈ p.log, ∃ th, p.threads[e.thread]? = some th ∧ th.tag = e.tag
  sect : ∀ e ∈ p.log, e.sect ∈ prog e.tag

/-- A suffix that begins with a section outside `pre` begins after `pre`. -/
theorem suffix_of_not_mem {a : A} {rest pre post : List A} (h : a :: rest <:+ pre ++ post) (ha : a ∉ pre) :
    a :: rest <:+ post := by
  obtain ⟨u, hu⟩ := h
  rcases List.append_eq_append_iff.mp hu with ⟨x, hpre, hx⟩ | ⟨x, _, hpost⟩
  · cases x with
    | nil => exact ⟨[], hx⟩
    | cons y x =>
      have hy : y = a := by
        simp only [List.cons_append, List.cons.injEq] at hx
        exact hx.1.symm
      exact absurd (by simp [hpre, hy]) ha
  · exact ⟨x, hpost.symm⟩

section Traced

variable {prog : T → List A} {spawn : T → A → List T} {run : A → σ → σ × Bool} {full : T → Prop} {i : Nat}
  {p q : Pool σ T A}

theorem traced_init (s : σ) : Traced prog full (Pool.init s : Pool σ T A) := by
  refine ⟨fun th hth => ?_, fun i th hi => ?_, fun e he => ?_, fun e he => ?_⟩
  · cases hth
  · cases hi
  · cases he
  · cases he

/-- No section of a thread that does not exist yet has run. -/
theorem Traced.done_nil (h : Traced prog full p) (hi : p.threads.length ≤ i) : Sections.done i p.log = [] := by
  refine List.eq_nil_iff_forall_not_mem.mpr fun a ha => ?_
  obtain ⟨e, he, hei, _⟩ := mem_done.mp ha
  obtain ⟨th, hth, _⟩ := h.logged e he
  have := (List.getElem?_eq_some_iff.mp hth).1
  omega

theorem traced_arrive (h : Traced prog full p) (t : T) : Traced prog full (arrive prog t p) := by
  refine ⟨fun th hth => ?_, fun i th hi hf => ?_, fun e he => ?_, h.sect⟩
  · rcases List.mem_append.mp hth with hth | hth
    · exact h.suffix th hth
    · rw [List.mem_singleton.mp hth]
      exact List.suffix_rfl
  · rcases Threads.getElem?_snoc hi with hi | ⟨rfl, rfl⟩
    · exact h.done i th hi hf
    · have hnil : Sections.done p.threads.length p.log = [] := h.done_nil le_rfl
      show Sections.done p.threads.length p.log ++ prog t = prog t
      rw [hnil]
      rfl
  · obtain ⟨th, hth, ht⟩ := h.logged e he
    refine ⟨th, ?_, ht⟩
    have hlt := (List.getElem?_eq_some_iff.mp hth).1
    simp only [arrive]
    rw [List.getElem?_append_left hlt, hth]

/-- An advance keeps the log in step with the programs. -/
theorem traced_advance (hfull : ∀ t, full t → ∀ a ∈ prog t, ∀ s, (run a s).2 = true) (h : Traced prog full p)
    (hq : advance prog spawn run i p = some q) : Traced prog full q := by
  obtain ⟨tag, a, rest, hi, _, hts, hlog⟩ := advance_some hq
  have hsuf : a :: rest <:+ prog tag := h.suffix _ (List.mem_of_getElem? hi)
  refine ⟨fun th hth => ?_, fun j th hj hf => ?_, fun e he => ?_, fun e he => ?_⟩
  · obtain ⟨j, hj⟩ := List.mem_iff_getElem?.mp hth
    rw [hts] at hj
    rcases getElem?_advance hj with ⟨_, rfl⟩ | ⟨_, hj⟩ | ⟨_, t, _, rfl⟩
    · split
      · exact (List.suffix_cons a rest).trans hsuf
      · exact List.nil_suffix
    · exact h.suffix th (List.mem_of_getElem? hj)
    · exact List.suffix_rfl
  · rw [hts] at hj
    rw [hlog]
    rcases getElem?_advance hj with ⟨rfl, rfl⟩ | ⟨hne, hj⟩ | ⟨hle, t, _, rfl⟩
    · have hgo : (run a p.state).2 = true := hfull tag hf a (hsuf.subset List.mem_cons_self) p.state
      have := h.done j _ hi hf
      rw [done_cons_self, if_pos hgo, List.append_assoc]
      exact this
    · rw [done_cons_ne (Ne.symm hne)]
      exact h.done j th hj hf
    · have hlt := (List.getElem?_eq_some_iff.mp hi).1
      rw [done_cons_ne (by omega), h.done_nil hle]
      rfl
  · rw [hlog] at he
    rcases List.mem_cons.mp he with rfl | he
    · exact advance_tag hq hi
    · obtain ⟨th, hth, ht⟩ := h.logged e he
      obtain ⟨th', hth', ht'⟩ := advance_tag hq hth
      exact ⟨th', hth', ht'.trans ht⟩
  · rw [hlog] at he
    rcases List.mem_cons.mp he with rfl | he
    · exact hsuf.subset List.mem_cons_self
    · exact h.sect e he

/-- A finished thread that never ends early has run its whole program. -/
theorem Traced.done_of_finished (h : Traced prog full p) (hp : p.Finished) {th : Thread T A}
    (hi : p.threads[i]? = some th) (hf : full th.tag) : Sections.done i p.log = prog th.tag := by
  have := h.done i th hi hf
  rwa [hp th (List.mem_of_getElem? hi), List.append_nil] at this

/-- A thread that stands at a section outside `pre` has run all of `pre`. -/
theorem Traced.mem_done_of_before (h : Traced prog full p) {t : T} {a b : A} {pre post rest : List A}
    (hi : p.threads[i]? = some ⟨t, a :: rest⟩) (hf : full t) (hprog : prog t = pre ++ post) (ha : a ∉ pre)
    (hb : b ∈ pre) : b ∈ Sections.done i p.log := by
  have hd : Sections.done i p.log ++ a :: rest = pre ++ post := (h.done i _ hi hf).trans hprog
  rcases List.append_eq_append_iff.mp hd with ⟨x, hpre, hx⟩ | ⟨x, hdone, _⟩
  · cases x with
    | nil => simpa [hpre] using hb
    | cons y x =>
      have : y = a := by
        simp only [List.cons_append, List.cons.injEq] at hx
        exact hx.1.symm
      exact absurd (by simp [hpre, this]) ha
  · rw [hdone]
    exact List.mem_append_left _ hb

end Traced

end Sections
