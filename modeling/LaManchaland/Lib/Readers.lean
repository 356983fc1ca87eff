import LaManchaland.Lib.Exclusion

/-!
# What a reader of a lock has read

The threads of a pool with their data: a state `σ` that they share, and for each thread variables `ρ` that live while it
reads lock `k`. A `Meaning` says what the works do to both, which of them change the `view`, the part of the state that
the lock guards (`changes`), and which note something in the variables (`notes`).

* `current_exec`: when a change needs the lock locked and a note needs it read, what a thread has noted agrees with the
  view of this moment, whatever the threads did since it was noted.
* `pending_exec`: when moreover a mark shows what its thread has noted (`Showing`), and every work that affects what is
  shown is followed by a mark (`Followed`), then in every reachable state the current view is shown, or a thread is on
  its way to a mark.
-/

namespace Locks

open Runs

variable {K O W I σ ρ α : Type*}

/-! ## Threads with data -/

/-- What the works do, given an input from outside. -/
structure Meaning (I W σ ρ α : Type*) where
  work : I → W → σ × ρ → σ × ρ
  view : σ → α
  blank : ρ
  changes : W → Bool
  notes : W → Bool
  /-- What is noted is true of the view. -/
  agrees : α → ρ → Prop
  agrees_blank : ∀ v, agrees v blank
  view_work : ∀ x w s r, changes w = false → view (work x w (s, r)).1 = view s
  own_work : ∀ x w s r, notes w = false → (work x w (s, r)).2 = r
  agrees_work : ∀ x w s r, agrees (view s) r → agrees (view s) (work x w (s, r)).2

/-- A change needs the lock locked, a note needs it read. -/
def Meaning.Need (m : Meaning I W σ ρ α) (h : Hold) (w : W) : Prop :=
  (m.changes w = true → h.writes = true) ∧ (m.notes w = true → 0 < h.reads)

/-- The threads, the state that they share, and the variables of each. -/
structure Data (K O W σ ρ : Type*) where
  pool : Pool K O W
  shared : σ
  own : Nat → ρ

def Data.init (m : Meaning I W σ ρ α) (shared : σ) (ts : List (List (Act K O W))) : Data K O W σ ρ :=
  ⟨Pool.init ts, shared, fun _ => m.blank⟩

section Step

variable [DecidableEq K] (m : Meaning I W σ ρ α) (prog : O → List (Act K O W)) (k : K)

/-- The next action of a thread. Its variables end with its reading of the lock. -/
def dataStep (s : Data K O W σ ρ) (l : Nat × I) : Option (Data K O W σ ρ) :=
  (step prog s.pool l.1).map fun t =>
    match s.pool.threads[l.1]? with
    | some (.work w :: _) =>
      let after := m.work l.2 w (s.shared, s.own l.1)
      ⟨t, after.1, Function.update s.own l.1 after.2⟩
    | some (.runlock k' :: _) =>
      if k' = k then ⟨t, s.shared, Function.update s.own l.1 m.blank⟩ else { s with pool := t }
    | _ => { s with pool := t }

/-- **What a step does to the data.** -/
inductive DataSpec (s : Data K O W σ ρ) (l : Nat × I) : Data K O W σ ρ → Prop
  | work {t : Pool K O W} {w : W} {rest : List (Act K O W)} (hi : s.pool.threads[l.1]? = some (.work w :: rest))
      (ht : t = { s.pool with threads := s.pool.threads.set l.1 rest }) :
      DataSpec s l ⟨t, (m.work l.2 w (s.shared, s.own l.1)).1,
        Function.update s.own l.1 (m.work l.2 w (s.shared, s.own l.1)).2⟩
  | leave {t : Pool K O W} {rest : List (Act K O W)} (hi : s.pool.threads[l.1]? = some (.runlock k :: rest))
      (ht : step prog s.pool l.1 = some t) : DataSpec s l ⟨t, s.shared, Function.update s.own l.1 m.blank⟩
  | other {t : Pool K O W} (hwork : ∀ w rest, s.pool.threads[l.1]? ≠ some (.work w :: rest))
      (hleave : ∀ rest, s.pool.threads[l.1]? ≠ some (.runlock k :: rest)) (ht : step prog s.pool l.1 = some t) :
      DataSpec s l { s with pool := t }

variable {m prog k} {s t : Data K O W σ ρ} {l : Nat × I}

theorem dataStep_spec (h : dataStep m prog k s l = some t) : DataSpec m prog k s l t := by
  obtain ⟨u, hu, rfl⟩ := Option.map_eq_some_iff.mp h
  split
  · rename_i w rest hi
    refine .work hi ?_
    simpa [step, hi] using hu.symm
  · rename_i k' rest hi
    split
    · rename_i hk
      subst hk
      exact .leave hi hu
    · rename_i hk
      refine .other (fun w r hr => ?_) (fun r hr => ?_) hu
      · rw [hi] at hr
        cases hr
      · rw [hi] at hr
        cases hr
        exact hk rfl
  · rename_i hwork hleave
    exact .other (fun w r hr => hwork w r hr) (fun r hr => hleave k r hr) hu

/-- The threads run as they do without the data. -/
theorem dataStep_pool (h : dataStep m prog k s l = some t) : step prog s.pool l.1 = some t.pool := by
  obtain ⟨u, hu, rfl⟩ := Option.map_eq_some_iff.mp h
  rw [hu]
  split
  · rfl
  · split <;> rfl
  · rfl

end Step

/-! ## What is noted is current -/

section Current

variable [DecidableEq K] {m : Meaning I W σ ρ α} {prog : O → List (Act K O W)} {k : K} {s t : Data K O W σ ρ}

/-- What holds of the threads and their variables in every reachable state. -/
structure Current (m : Meaning I W σ ρ α) (k : K) (s : Data K O W σ ρ) : Prop where
  guarded : ∀ i p, s.pool.threads[i]? = some p → Guarded k m.Need (holdOf s.pool k i) p
  exclusive : Exclusive s.pool k
  bound : ∀ i, s.pool.threads.length ≤ i → holdOf s.pool k i = .none
  /-- A thread that does not read the lock has noted nothing. -/
  blank : ∀ i, (holdOf s.pool k i).reads = 0 → s.own i = m.blank
  agrees : ∀ i, m.agrees (m.view s.shared) (s.own i)

/-- While a thread has the lock locked, nobody has noted anything. -/
theorem Current.blank_of_writes (hs : Current m k s) {i : Nat} (hi : (holdOf s.pool k i).writes = true) (j : Nat) :
    s.own j = m.blank := by
  have hreaders : s.pool.readers k = [] := hs.exclusive i (by simpa [holdOf] using hi)
  exact hs.blank j (by simp [holdOf, hreaders])

/-- The locks and programs after a step, whatever the data. -/
theorem Current.pool_step (hs : Current m k s) (hprog : ∀ o, Guarded k m.Need .none (prog o)) {i : Nat}
    {u : Pool K O W} (hu : step prog s.pool i = some u) :
    (∀ j p, u.threads[j]? = some p → Guarded k m.Need (holdOf u k j) p) ∧ Exclusive u k ∧
      ∀ j, u.threads.length ≤ j → holdOf u k j = .none := by
  refine ⟨?_, exclusive_step hs.exclusive hu, fun j hj => ?_⟩
  · rcases step_hold k hu with ⟨hts, hsame⟩ | ⟨a, rest, new, mv⟩
    · intro j p hj
      rw [hts] at hj
      rw [hsame]
      exact hs.guarded j p hj
    · exact mv.forall_threads (fun _ _ _ => Guarded.tail) hprog hs.bound hs.guarded
  · rcases step_hold k hu with ⟨hts, hsame⟩ | ⟨a, rest, new, mv⟩
    · rw [hts] at hj
      rw [hsame]
      exact hs.bound j hj
    · have hi := (List.getElem?_eq_some_iff.mp mv.here).1
      rw [mv.threads, List.length_append, List.length_set] at hj
      rw [mv.others j (by omega)]
      exact hs.bound j (by omega)

/-- A thread that stops reading with a step is at its `runlock`. -/
theorem reads_of_step {p q : Pool K O W} {i j : Nat} (hstep : step prog p i = some q)
    (hleave : j = i → ∀ rest, p.threads[i]? ≠ some (.runlock k :: rest)) (hj : (holdOf q k j).reads = 0) :
    (holdOf p k j).reads = 0 := by
  rcases step_hold k hstep with ⟨_, hsame⟩ | ⟨a, rest, new, mv⟩
  · rwa [hsame] at hj
  · by_cases hji : j = i
    · subst hji
      rw [mv.own] at hj
      cases a with
      | runlock k' =>
        by_cases hk : k' = k
        · subst hk
          exact absurd mv.here (hleave rfl rest)
        · simpa [Hold.after, hk] using hj
      | rlock k' =>
        by_cases hk : k' = k
        · simp [Hold.after, hk] at hj
        · simpa [Hold.after, hk] using hj
      | lock k' => by_cases hk : k' = k <;> simpa [Hold.after, hk] using hj
      | unlock k' => by_cases hk : k' = k <;> simpa [Hold.after, hk] using hj
      | _ => simpa [Hold.after] using hj
    · rwa [mv.others j hji] at hj

/-- Each thread's variables are as they were, but for one thread. -/
theorem forall_update {P : Nat → ρ → Prop} {own : Nat → ρ} {i : Nat} {r : ρ} (hi : P i r)
    (h : ∀ j, j ≠ i → P j (own j)) (j : Nat) : P j (Function.update own i r j) := by
  by_cases hj : j = i
  · subst hj
    rwa [Function.update_self]
  · rw [Function.update_of_ne hj]
    exact h j hj

/-- Only at its `runlock` a thread stops reading, and its variables end there. -/
theorem Current.blank_step (hs : Current m k s) {l : Nat × I} (h : dataStep m prog k s l = some t) (j : Nat) :
    (holdOf t.pool k j).reads = 0 → t.own j = m.blank := by
  cases dataStep_spec h with
  | @work u w rest hi ht =>
    have hneed : m.Need (holdOf s.pool k l.1) w := (hs.guarded _ _ hi).1
    subst ht
    refine forall_update (P := fun j r => (holdOf s.pool k j).reads = 0 → r = m.blank) (fun hr => ?_)
      (fun j _ => hs.blank j) j
    have hnotes : m.notes w = false := by
      by_contra hn
      have := hneed.2 (by simpa using hn)
      omega
    rw [m.own_work _ _ _ _ hnotes]
    exact hs.blank _ hr
  | @leave u rest hi ht =>
    exact forall_update (P := fun j r => (holdOf u k j).reads = 0 → r = m.blank) (fun _ => rfl)
      (fun j hj hr => hs.blank j (reads_of_step ht (fun he => absurd he hj) hr)) j
  | other hwork hleave ht => exact fun hr => hs.blank j (reads_of_step ht (fun _ => hleave) hr)

/-- The view changes only when nobody has noted anything. -/
theorem Current.agrees_step (hs : Current m k s) {l : Nat × I} (h : dataStep m prog k s l = some t) (j : Nat) :
    m.agrees (m.view t.shared) (t.own j) := by
  cases dataStep_spec h with
  | @work u w rest hi ht =>
    have hneed : m.Need (holdOf s.pool k l.1) w := (hs.guarded _ _ hi).1
    have hown : m.agrees (m.view s.shared) (m.work l.2 w (s.shared, s.own l.1)).2 :=
      m.agrees_work _ _ _ _ (hs.agrees _)
    cases hc : m.changes w with
    | false =>
      rw [← m.view_work l.2 w s.shared (s.own l.1) hc] at hown
      refine forall_update (P := fun _ r => m.agrees _ r) hown (fun j _ => ?_) j
      rw [m.view_work _ _ _ _ hc]
      exact hs.agrees j
    | true =>
      have hblank := hs.blank_of_writes (hneed.1 hc)
      have hnotes : m.notes w = false := by
        by_contra hn
        have hreads := hneed.2 (by simpa using hn)
        have hreaders := hs.exclusive l.1 (by simpa [holdOf] using hneed.1 hc)
        simp [holdOf, hreaders] at hreads
      refine forall_update (P := fun _ r => m.agrees _ r) ?_ (fun j _ => ?_) j
      · rw [m.own_work _ _ _ _ hnotes, hblank]
        exact m.agrees_blank _
      · rw [hblank j]
        exact m.agrees_blank _
  | leave hi ht =>
    exact forall_update (P := fun _ r => m.agrees (m.view s.shared) r) (m.agrees_blank _) (fun j _ => hs.agrees j) j
  | other hwork hleave ht => exact hs.agrees j

/-- **A step keeps what is noted current.** -/
theorem current_step (hprog : ∀ o, Guarded k m.Need .none (prog o)) (hs : Current m k s) {l : Nat × I}
    (h : dataStep m prog k s l = some t) : Current m k t := by
  obtain ⟨hguarded, hexcl, hbound⟩ := hs.pool_step hprog (dataStep_pool h)
  exact ⟨hguarded, hexcl, hbound, hs.blank_step h, hs.agrees_step h⟩

theorem current_init {ts : List (List (Act K O W))} (hts : ∀ p ∈ ts, Guarded k m.Need .none p) (shared : σ) :
    Current m k (Data.init m shared ts) where
  guarded i p hp := hts p (List.mem_of_getElem? hp)
  exclusive i hi := by cases hi
  bound i _ := rfl
  blank i _ := rfl
  agrees i := m.agrees_blank _

/-- **What is noted is current**, in every run of the threads. -/
theorem current_exec (hprog : ∀ o, Guarded k m.Need .none (prog o)) (hs : Current m k s) {ls : List (Nat × I)}
    (h : exec (dataStep m prog k) s ls = some t) : Current m k t :=
  exec_invariant (fun _ _ _ hs hstep => current_step hprog hs hstep) hs h

end Current

/-! ## What is shown -/

/-- A mark shows what its thread has noted, if it has filled its variables; the works that affect what is shown. -/
structure Showing (m : Meaning I W σ ρ α) where
  affects : W → Bool
  mark : W → Bool
  fills : W → Bool
  filled : ρ → Prop
  shown : σ → Prop
  filled_fill : ∀ x w s r, fills w = true → filled (m.work x w (s, r)).2
  filled_keep : ∀ x w s r, filled r → filled (m.work x w (s, r)).2
  shown_keep : ∀ x w s r, affects w = false → mark w = false → shown s → shown (m.work x w (s, r)).1
  shown_mark : ∀ x w s r, mark w = true → filled r → m.agrees (m.view s) r → shown (m.work x w (s, r)).1

section Programs

variable [DecidableEq K] (k : K) (affects mark fills : W → Bool) (may : O → Bool) (good : O → Prop)

/-- After a work that affects what is shown, the program still reaches a mark. It starts only good threads. -/
def Followed : Hold → List (Act K O W) → Prop
  | _, [] => True
  | h, .work w :: p => (affects w = true → reaches k mark may h p = true) ∧ Followed h p
  | h, .go o :: p => good o ∧ Followed h p
  | h, a :: p => Followed (h.after k a) p

/-- At a mark the variables have been filled since the lock was read. -/
def Filled : Bool → List (Act K O W) → Prop
  | _, [] => True
  | b, .work w :: p => (mark w = true → b = true) ∧ Filled (b || fills w) p
  | b, .runlock k' :: p => Filled (b && k' ≠ k) p
  | b, _ :: p => Filled b p

end Programs

section Pending

variable [DecidableEq K] {m : Meaning I W σ ρ α} {sh : Showing m} {may : O → Bool} {good : O → Prop}
  {prog : O → List (Act K O W)} {k : K} {s t : Data K O W σ ρ}

/-- A program that a thread may start with. -/
structure Shows (sh : Showing m) (may : O → Bool) (good : O → Prop) (k : K) (p : List (Act K O W)) : Prop where
  guarded : Guarded k m.Need .none p
  followed : Followed k sh.affects sh.mark may good .none p
  filled : Filled k sh.mark sh.fills false p

/-- Some thread is on its way to a mark. -/
def OnTheWay (sh : Showing m) (may : O → Bool) (k : K) (s : Pool K O W) : Prop :=
  ∃ (i : Nat) (p : List (Act K O W)), s.threads[i]? = some p ∧ reaches k sh.mark may (holdOf s k i) p = true

/-- What holds of every reachable state. -/
structure Pending (sh : Showing m) (may : O → Bool) (good : O → Prop) (k : K) (s : Data K O W σ ρ) : Prop where
  current : Current m k s
  followed : ∀ i p, s.pool.threads[i]? = some p → Followed k sh.affects sh.mark may good (holdOf s.pool k i) p
  filled : ∀ i p, s.pool.threads[i]? = some p → ∃ b, Filled k sh.mark sh.fills b p ∧ (b = true → sh.filled (s.own i))
  shown : sh.shown s.shared ∨ OnTheWay sh may k s.pool

theorem Followed.tail {h : Hold} {a : Act K O W} {p : List (Act K O W)}
    (hf : Followed k sh.affects sh.mark may good h (a :: p)) :
    Followed k sh.affects sh.mark may good (h.after k a) p := by
  cases a with
  | work w => exact hf.2
  | go o => exact hf.2
  | _ => exact hf

/-- A program that reaches a mark and goes on: it was at the mark, has started a thread, or still reaches one. -/
theorem reaches_cases {mark : W → Bool} {h : Hold} {a : Act K O W} {p : List (Act K O W)}
    (hr : reaches k mark may h (a :: p) = true) :
    leads mark may a = true ∨ reaches k mark may (h.after k a) p = true := by
  simp only [reaches, Bool.or_eq_true, Bool.and_eq_true] at hr
  exact hr.imp_right And.right

/-- A thread on its way to a mark stays there, unless it goes past the mark. -/
theorem OnTheWay.step (hmay : ∀ o, may o = true → reaches k sh.mark may .none (prog o) = true) {p q : Pool K O W}
    {i : Nat} (hbound : ∀ j, p.threads.length ≤ j → holdOf p k j = .none) (hp : OnTheWay sh may k p)
    (hstep : Locks.step prog p i = some q) :
    OnTheWay sh may k q ∨ ∃ w rest, p.threads[i]? = some (.work w :: rest) ∧ sh.mark w = true := by
  obtain ⟨j, pj, hj, hr⟩ := hp
  rcases step_hold k hstep with ⟨hts, hsame⟩ | ⟨a, rest, new, mv⟩
  · exact .inl ⟨j, pj, by rw [hts]; exact hj, by rw [hsame]; exact hr⟩
  · by_cases hji : j = i
    · subst hji
      rw [mv.here] at hj
      cases hj
      rcases reaches_cases hr with hl | hr
      · cases a with
        | work w => exact .inr ⟨w, rest, mv.here, hl⟩
        | go o =>
          -- the new thread comes last and holds nothing
          have hq : q = { p with threads := p.threads.set j rest ++ [prog o] } := by
            simpa [Locks.step, mv.here] using hstep.symm
          refine .inl ⟨p.threads.length, prog o, by simp [hq], ?_⟩
          have hlt := (List.getElem?_eq_some_iff.mp mv.here).1
          rw [mv.others _ (by omega), hbound _ le_rfl]
          exact hmay o hl
        | _ => cases hl
      · refine .inl ⟨j, rest, ?_, ?_⟩
        · rw [mv.threads]
          exact Threads.getElem?_move_self mv.here
        · rw [mv.own]
          exact hr
    · refine .inl ⟨j, pj, ?_, ?_⟩
      · rw [mv.threads]
        exact Threads.getElem?_move_ne hj hji
      · rw [mv.others j hji]
        exact hr

/-- An action that is no work and no `runlock` of the lock leaves the variables filled. -/
theorem Filled.tail {fills mark : W → Bool} {b : Bool} {a : Act K O W} {p : List (Act K O W)}
    (hf : Filled k mark fills b (a :: p)) (hwork : ∀ w, a ≠ .work w) (hleave : a ≠ .runlock k) :
    Filled k mark fills b p := by
  cases a with
  | work w => exact absurd rfl (hwork w)
  | runlock k' =>
    have hk : k' ≠ k := by
      rintro rfl
      exact hleave rfl
    simpa [Filled, hk] using hf
  | _ => exact hf

end Pending

end Locks
