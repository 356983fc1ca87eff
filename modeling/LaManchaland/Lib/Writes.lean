import LaManchaland.Lib.Sections

/-!
# Blind writes

A store has a value at every cell `C`. A `Write` gives new values to some cells, whatever the store holds; so a store
is its initial one and, at each cell, the latest write. Logs have the latest write first.

* `store_serial_iff`: in a log of two interleaved programs, the outcome is that of the serial order `a`, `b` exactly
  when `b` is the last writer of every contested cell, one to which both finally write, but different values.
* `view_advance`: if the sections of a pool act on a view of the state as blind writes, the view is the initial one
  after the writes of the log.
-/

namespace Writes

variable {C : Type*} {V : C → Type*}

abbrev Store (V : C → Type*) := ∀ c, V c

abbrev Write (V : C → Type*) := ∀ c, Option (V c)

def apply (w : Write V) (s : Store V) : Store V := fun c => (w c).getD (s c)

/-- The value last written to a cell. -/
def latest : List (Write V) → ∀ c, Option (V c)
  | [], _ => none
  | w :: ws, c => (w c).or (latest ws c)

/-- The store after the writes of a log. -/
def store (ws : List (Write V)) (s : Store V) : Store V := fun c => (latest ws c).getD (s c)

@[simp] theorem store_nil (s : Store V) : store [] s = s := rfl

theorem store_cons (w : Write V) (ws : List (Write V)) (s : Store V) : store (w :: ws) s = apply w (store ws s) := by
  funext c
  cases h : w c <;> simp [store, latest, apply, h]

theorem latest_append (ws vs : List (Write V)) (c : C) : latest (ws ++ vs) c = (latest ws c).or (latest vs c) := by
  induction ws with
  | nil => rfl
  | cons w ws ih => rw [List.cons_append, latest, ih, latest, Option.or_assoc]

/-- A later log works on the store that the earlier one left. -/
theorem store_append (ws vs : List (Write V)) (s : Store V) : store (ws ++ vs) s = store ws (store vs s) := by
  funext c
  rw [store, latest_append]
  cases h : latest ws c <;> simp [store, h]

/-! ## Two interleaved programs -/

section Interleaved

variable {E T : Type*} (tag : E → T) (write : E → Write V)

/-- The program whose event wrote the cell last. -/
def lastWriter : List E → C → Option T
  | [], _ => none
  | e :: log, c => if (write e c).isSome then some (tag e) else lastWriter log c

/-- A written cell has a last writer. -/
theorem lastWriter_of_mem {log : List E} {c : C} {e : E} (he : e ∈ log) (hw : (write e c).isSome = true) :
    ∃ t, lastWriter tag write log c = some t := by
  induction log with
  | nil => cases he
  | cons e' log ih =>
    rw [lastWriter]
    split
    · exact ⟨_, rfl⟩
    · rename_i hw'
      rcases List.mem_cons.mp he with rfl | he
      · exact absurd hw hw'
      · exact ih he

variable [DecidableEq T]

/-- The writes of one program. -/
def side (t : T) (log : List E) : List (Write V) := (log.filter fun e => tag e = t).map write

/-- Both logs finally write to the cell, and not the same value. -/
def Contested (ws vs : List (Write V)) (c : C) : Prop :=
  ∃ v v', latest ws c = some v ∧ latest vs c = some v' ∧ v ≠ v'

variable {tag write}

theorem Contested.symm {ws vs : List (Write V)} {c : C} (h : Contested ws vs c) : Contested vs ws c := by
  obtain ⟨v, v', hv, hv', hne⟩ := h
  exact ⟨v', v, hv', hv, Ne.symm hne⟩

theorem side_cons (t : T) (e : E) (log : List E) :
    side tag write t (e :: log) = if tag e = t then write e :: side tag write t log else side tag write t log := by
  by_cases h : tag e = t <;> simp [side, h]

/-- A cell without a last writer has been written by nobody. -/
theorem latest_of_lastWriter_none {log : List E} {c : C} (h : lastWriter tag write log c = none) :
    latest (log.map write) c = none ∧ ∀ t, latest (side tag write t log) c = none := by
  induction log with
  | nil => exact ⟨rfl, fun _ => rfl⟩
  | cons e log ih =>
    rw [lastWriter] at h
    split at h
    · cases h
    · rename_i hw
      have hw : write e c = none := by simpa using hw
      obtain ⟨hl, ht⟩ := ih h
      refine ⟨by rw [List.map_cons, latest, hw, hl]; rfl, fun t => ?_⟩
      rw [side_cons]
      split
      · rw [latest, hw, ht t]; rfl
      · exact ht t

/-- The last writer determines the value of the cell. -/
theorem latest_of_lastWriter {log : List E} {c : C} {t : T} (h : lastWriter tag write log c = some t) :
    ∃ e ∈ log, tag e = t ∧ ∃ v, write e c = some v ∧ latest (log.map write) c = some v ∧
      latest (side tag write t log) c = some v := by
  induction log with
  | nil => cases h
  | cons e log ih =>
    rw [lastWriter] at h
    split at h
    · rename_i hw
      obtain ⟨v, hv⟩ := Option.isSome_iff_exists.mp hw
      have ht : tag e = t := Option.some.inj h
      refine ⟨e, List.mem_cons_self, ht, v, hv, ?_, ?_⟩
      · rw [List.map_cons, latest, hv]; rfl
      · rw [side_cons, if_pos ht, latest, hv]; rfl
    · rename_i hw
      have hw : write e c = none := by simpa using hw
      obtain ⟨e', he', ht, v, hv, hl, hs⟩ := ih h
      refine ⟨e', List.mem_cons_of_mem _ he', ht, v, hv, ?_, ?_⟩
      · rw [List.map_cons, latest, hw, hl]; rfl
      · rw [side_cons]
        split
        · rw [latest, hw, hs]; rfl
        · exact hs

variable (tag write) in
/-- **When an interleaving is a serial order**: two programs `a` and `b` leave the store that `a` and then `b` would
leave exactly when `b` wrote every contested cell last. -/
theorem store_serial_iff {a b : T} {log : List E} (htags : ∀ e ∈ log, tag e = a ∨ tag e = b) (s : Store V) :
    store (log.map write) s = store (side tag write b log) (store (side tag write a log) s) ↔
      ∀ c, Contested (side tag write a log) (side tag write b log) c → lastWriter tag write log c = some b := by
  rw [← store_append, funext_iff]
  refine forall_congr' fun c => ?_
  simp only [store, latest_append]
  cases hw : lastWriter tag write log c with
  | none =>
    obtain ⟨hl, hs⟩ := latest_of_lastWriter_none hw
    refine iff_of_true (by rw [hl, hs a, hs b]; rfl) ?_
    rintro ⟨v, _, hv, _⟩
    rw [hs a] at hv
    cases hv
  | some t =>
    obtain ⟨e, he, ht, v, _, hl, hs⟩ := latest_of_lastWriter hw
    rw [hl]
    by_cases htb : t = b
    · subst htb
      exact iff_of_true (by rw [hs]; rfl) fun _ => rfl
    · -- `a` wrote the cell last: the outcome is serial when `b` did not write it, or wrote the same value
      have hta : t = a := by
        rcases htags e he with h | h
        · exact ht.symm.trans h
        · exact absurd (ht.symm.trans h) htb
      subst hta
      rw [hs]
      cases hb : latest (side tag write b log) c with
      | none =>
        refine iff_of_true rfl ?_
        rintro ⟨_, v', _, hv', _⟩
        rw [hb] at hv'
        cases hv'
      | some v' =>
        constructor
        · rintro h ⟨u, u', hu, hu', hne⟩
          have hvv : v = v' := by simpa using h
          rw [hs, Option.some.injEq] at hu
          rw [hb, Option.some.injEq] at hu'
          exact absurd (hu.symm.trans (hvv.trans hu')) hne
        · intro h
          by_contra hne
          have hne : v ≠ v' := fun he => hne (by simp [he])
          have := h ⟨v, v', hs, hb, hne⟩
          exact htb (Option.some.inj this)

end Interleaved

/-! ## Sections that write blindly -/

section View

open Sections (Pool Event advance advance_some runAll)

variable {σ T A : Type*} {prog : T → List A} {spawn : T → A → List T} {run : A → σ → σ × Bool} {view : σ → Store V}
  {write : A → Write V} {s₀ : Store V} {p q : Pool σ T A}

/-- An advance keeps the view equal to the writes of the log. -/
theorem view_advance (hrun : ∀ a s, view (run a s).1 = apply (write a) (view s)) {i : Nat}
    (h : advance prog spawn run i p = some q) (hp : view p.state = store (p.log.map fun e => write e.sect) s₀) :
    view q.state = store (q.log.map fun e => write e.sect) s₀ := by
  obtain ⟨tag, a, rest, _, hs, _, hlog⟩ := advance_some h
  rw [hs, hrun, hp, hlog, List.map_cons, store_cons]

/-- A program by itself leaves the writes of its sections. -/
theorem view_runAll (hrun : ∀ a s, view (run a s).1 = apply (write a) (view s)) : ∀ (as : List A) (s : σ),
    (∀ a ∈ as, ∀ s, (run a s).2 = true) → view (runAll run as s) = store (as.map write).reverse (view s)
  | [], _, _ => rfl
  | a :: as, s, h => by
    have ha : (run a s).2 = true := h a List.mem_cons_self s
    rw [runAll, if_pos ha, view_runAll hrun as _ fun b hb => h b (List.mem_cons_of_mem _ hb), List.map_cons,
      List.reverse_cons, store_append, store_cons, store_nil, hrun]

end View

end Writes
