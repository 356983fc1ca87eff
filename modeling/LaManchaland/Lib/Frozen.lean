import LaManchaland.Lib.Exclusion

/-!
# Locks that nobody gets any more

One lock of a pool may be held while others are taken, the outer one `k₀`. With any other lock a thread takes and
releases no lock but that one. `Nested` is this discipline, under which a thread may still wait for itself: it may read
`k₀` while it has `k₀`. `Tidy` is what holds of the reachable states.

`Frozen k s`: lock `k` is taken or a writer has announced itself, and a thread that has the lock takes it again before
it has released it, or the announced writer will do so. A frozen lock stays frozen (`frozen_step`), and a thread that
has still to take it is `Doomed`. A lock gets frozen only by a writer (`frozen_back`).
-/

namespace Locks

open Runs

variable {K O W : Type*} [DecidableEq K]

/-! ## The discipline -/

/-- The action is one on lock `k`. -/
def Act.on (k : K) : Act K O W → Bool
  | .lock k' | .unlock k' | .rlock k' | .runlock k' => k' = k
  | .go _ | .work _ => false

/-- The action takes lock `k`. -/
def Act.asks (k : K) : Act K O W → Bool
  | .lock k' | .rlock k' => k' = k
  | .unlock _ | .runlock _ | .go _ | .work _ => false

/-- With what the thread has of lock `k`, the program takes the lock again before it has released it. -/
def retakes (k : K) : Hold → List (Act K O W) → Bool
  | _, [] => false
  | h, a :: p => h ≠ .none && (a.asks k || retakes k (h.after k a) p)

/-- What a thread may do with what it has of lock `k`: it releases only what it has, it locks only what it does not
have, and with an inner lock it takes and releases no other one. -/
def Permits (k₀ k : K) (h : Hold) : Act K O W → Prop
  | .lock k' => k' = k ∨ k ≠ k₀ → h = .none
  | .rlock _ => k ≠ k₀ → h = .none
  | .unlock k' => if k' = k then h.writes = true else k ≠ k₀ → h = .none
  | .runlock k' => if k' = k then 0 < h.reads else k ≠ k₀ → h = .none
  | .go _ | .work _ => True

/-- The program keeps to that, and releases lock `k` in the end. -/
def Nested (k₀ k : K) : Hold → List (Act K O W) → Prop
  | h, [] => h = .none
  | h, a :: p => Permits k₀ k h a ∧ Nested k₀ k (h.after k a) p

/-- The threads keep to the discipline, and the state of the locks agrees with them. -/
structure Tidy (k₀ : K) (s : Pool K O W) : Prop where
  nested : ∀ k i p, s.threads[i]? = some p → Nested k₀ k (holdOf s k i) p
  /-- An announced writer is at its `lock`. -/
  announced : ∀ k i, s.writer k = .waiting i → ∃ rest, s.threads[i]? = some (.lock k :: rest)
  /-- Only threads of the pool hold locks. -/
  bound : ∀ k i, s.threads.length ≤ i → holdOf s k i = .none
  exclusive : ∀ k, Exclusive s k

section Tidy

variable {prog : O → List (Act K O W)} {s t : Pool K O W} {i : Nat} {k₀ : K}

omit [DecidableEq K] in
/-- A thread that is at a `lock` stays there when another action is taken. -/
theorem at_lock_move {j : Nat} {k : K} {a : Act K O W} {r rest : List (Act K O W)} (new : List (List (Act K O W)))
    (hj : s.threads[j]? = some (.lock k :: r)) (hi : s.threads[i]? = some (a :: rest)) (ha : a ≠ .lock k) :
    (s.threads.set i rest ++ new)[j]? = some (.lock k :: r) := by
  refine Threads.getElem?_move_ne hj ?_
  rintro rfl
  rw [hi] at hj
  cases hj
  exact ha rfl

theorem Tidy.announced_step (hs : Tidy k₀ s) (h : step prog s i = some t) (k : K) (j : Nat)
    (hj : t.writer k = .waiting j) : ∃ rest, t.threads[j]? = some (.lock k :: rest) := by
  cases step_spec h with
  | @announce k' rest hi hw =>
    by_cases hk : k = k'
    · subst hk
      simp only [Function.update_self, Writer.waiting.injEq] at hj
      exact ⟨rest, hj ▸ hi⟩
    · simp only [Function.update_of_ne hk] at hj
      exact hs.announced k j hj
  | @lock k' rest hi hw hr =>
    by_cases hk : k = k'
    · subst hk
      simp at hj
    · simp only [Function.update_of_ne hk] at hj
      obtain ⟨r, hr⟩ := hs.announced k j hj
      refine ⟨r, ?_⟩
      rw [← List.append_nil (s.threads.set i rest)]
      exact at_lock_move [] hr hi fun he => hk (Act.lock.inj he).symm
  | @unlock k' rest hi hw =>
    by_cases hk : k = k'
    · subst hk
      simp at hj
    · simp only [Function.update_of_ne hk] at hj
      obtain ⟨r, hr⟩ := hs.announced k j hj
      refine ⟨r, ?_⟩
      rw [← List.append_nil (s.threads.set i rest)]
      exact at_lock_move [] hr hi fun he => by cases he
  | @go o rest hi =>
    obtain ⟨r, hr⟩ := hs.announced k j hj
    exact ⟨r, at_lock_move [prog o] hr hi (by simp)⟩
  | @rlock k' rest hi hw | @runlock k' rest hi hw | @work w rest hi =>
    obtain ⟨r, hr⟩ := hs.announced k j hj
    refine ⟨r, ?_⟩
    rw [← List.append_nil (s.threads.set i rest)]
    exact at_lock_move [] hr hi fun he => by cases he

/-- A step keeps a pool tidy. -/
theorem tidy_step (hprog : ∀ o k, Nested k₀ k .none (prog o)) (hs : Tidy k₀ s) (h : step prog s i = some t) :
    Tidy k₀ t := by
  refine ⟨fun k => ?_, hs.announced_step h, fun k => ?_, fun k => exclusive_step (hs.exclusive k) h⟩
  · rcases step_hold k h with ⟨hts, hsame⟩ | ⟨a, rest, new, m⟩
    · intro j p hj
      rw [hts] at hj
      rw [hsame]
      exact hs.nested k j p hj
    · exact m.forall_threads (fun _ _ _ hn => hn.2) (fun o => hprog o k) (hs.bound k) (hs.nested k)
  · intro j hj
    rcases step_hold k h with ⟨hts, hsame⟩ | ⟨a, rest, new, m⟩
    · rw [hsame, hs.bound k j (hts ▸ hj)]
    · have hi := (List.getElem?_eq_some_iff.mp m.here).1
      have hle : s.threads.length ≤ j := by
        rw [m.threads, List.length_append, List.length_set] at hj
        omega
      rw [m.others j (by omega), hs.bound k j hle]

theorem tidy_init {ts : List (List (Act K O W))} (h : ∀ p ∈ ts, ∀ k, Nested k₀ k .none p) :
    Tidy k₀ (Pool.init ts) := by
  have hnone : ∀ k i, holdOf (Pool.init ts : Pool K O W) k i = .none := fun k i => by
    simp [holdOf, Pool.init, Hold.none]
  refine ⟨fun k i p hp => ?_, (fun k i hk => by cases hk), fun k i _ => hnone k i, fun k i hk => by cases hk⟩
  rw [hnone]
  exact h p (List.mem_of_getElem? hp) k

theorem tidy_exec (hprog : ∀ o k, Nested k₀ k .none (prog o)) (hs : Tidy k₀ s) {ls : List Nat}
    (h : exec (step prog) s ls = some t) : Tidy k₀ t :=
  exec_invariant (fun _ _ _ hs h => tidy_step hprog hs h) hs h

end Tidy

/-! ## One lock of a pool -/

/-- The run from `s` to `t` has no action on lock `k`. -/
structure Aside (k : K) (s t : Pool K O W) : Prop where
  writer : t.writer k = s.writer k
  readers : t.readers k = s.readers k
  threads : ∀ (i : Nat) (p : List (Act K O W)), s.threads[i]? = some p →
    ∃ b q : List (Act K O W), t.threads[i]? = some q ∧ p = b ++ q ∧ ∀ a ∈ b, a.on k = false

/-- **What a step does to one lock.** -/
inductive LockStep (k : K) (s : Pool K O W) (i : Nat) : Pool K O W → Prop
  | aside {t : Pool K O W} (h : Aside k s t) : LockStep k s i t
  | announce {rest : List (Act K O W)} (hi : s.threads[i]? = some (.lock k :: rest)) (hw : s.writer k = .free) :
      LockStep k s i { s with writer := Function.update s.writer k (.waiting i) }
  | lock {rest : List (Act K O W)} (hi : s.threads[i]? = some (.lock k :: rest)) (hw : s.writer k = .waiting i)
      (hr : s.readers k = []) : LockStep k s i
        { s with threads := s.threads.set i rest, writer := Function.update s.writer k (.holding i) }
  | unlock {rest : List (Act K O W)} (hi : s.threads[i]? = some (.unlock k :: rest)) (hw : s.writer k = .holding i) :
      LockStep k s i { s with threads := s.threads.set i rest, writer := Function.update s.writer k .free }
  | rlock {rest : List (Act K O W)} (hi : s.threads[i]? = some (.rlock k :: rest)) (hw : s.writer k = .free) :
      LockStep k s i
        { s with threads := s.threads.set i rest, readers := Function.update s.readers k (i :: s.readers k) }
  | runlock {rest : List (Act K O W)} (hi : s.threads[i]? = some (.runlock k :: rest)) (hr : i ∈ s.readers k) :
      LockStep k s i { s with
        threads := s.threads.set i rest, readers := Function.update s.readers k ((s.readers k).erase i) }

section One

variable {prog : O → List (Act K O W)} {s t u : Pool K O W} {i : Nat} {k k₀ : K}

theorem Aside.refl (s : Pool K O W) : Aside k s s :=
  ⟨rfl, rfl, fun _ p hp => ⟨[], p, hp, rfl, fun _ ha => by cases ha⟩⟩

theorem Aside.trans (h : Aside k s t) (h' : Aside k t u) : Aside k s u := by
  refine ⟨h'.writer.trans h.writer, h'.readers.trans h.readers, fun i p hp => ?_⟩
  obtain ⟨b, q, hq, rfl, hb⟩ := h.threads i p hp
  obtain ⟨c, r, hr, rfl, hc⟩ := h'.threads i q hq
  refine ⟨b ++ c, r, hr, (List.append_assoc b c r).symm, fun a ha => ?_⟩
  rcases List.mem_append.mp ha with ha | ha
  · exact hb a ha
  · exact hc a ha

/-- A step past an action that is not on the lock. -/
theorem Aside.of_move {a : Act K O W} {rest : List (Act K O W)} {new : List (List (Act K O W))}
    (hi : s.threads[i]? = some (a :: rest)) (ha : a.on k = false) (hts : t.threads = s.threads.set i rest ++ new)
    (hw : t.writer k = s.writer k) (hr : t.readers k = s.readers k) : Aside k s t := by
  refine ⟨hw, hr, fun j p hp => ?_⟩
  rw [hts]
  by_cases hj : j = i
  · subst hj
    rw [hi] at hp
    cases hp
    exact ⟨[a], rest, Threads.getElem?_move_self hi, rfl, fun b hb => List.mem_singleton.mp hb ▸ ha⟩
  · exact ⟨[], p, Threads.getElem?_move_ne hp hj, rfl, fun b hb => by cases hb⟩

theorem lock_step (k : K) (h : step prog s i = some t) : LockStep k s i t := by
  cases step_spec h with
  | @announce k' rest hi hw =>
    by_cases hk : k' = k
    · subst hk
      exact .announce hi hw
    · exact .aside ⟨Function.update_of_ne (Ne.symm hk) _ _, rfl, (Aside.refl (k := k) s).threads⟩
  | @lock k' rest hi hw hr =>
    by_cases hk : k' = k
    · subst hk
      exact .lock hi hw hr
    · exact .aside (.of_move hi (by simpa [Act.on] using hk) (List.append_nil _).symm
        (Function.update_of_ne (Ne.symm hk) _ _) rfl)
  | @unlock k' rest hi hw =>
    by_cases hk : k' = k
    · subst hk
      exact .unlock hi hw
    · exact .aside (.of_move hi (by simpa [Act.on] using hk) (List.append_nil _).symm
        (Function.update_of_ne (Ne.symm hk) _ _) rfl)
  | @rlock k' rest hi hw =>
    by_cases hk : k' = k
    · subst hk
      exact .rlock hi hw
    · exact .aside (.of_move hi (by simpa [Act.on] using hk) (List.append_nil _).symm rfl
        (Function.update_of_ne (Ne.symm hk) _ _))
  | @runlock k' rest hi hr =>
    by_cases hk : k' = k
    · subst hk
      exact .runlock hi hr
    · exact .aside (.of_move hi (by simpa [Act.on] using hk) (List.append_nil _).symm rfl
        (Function.update_of_ne (Ne.symm hk) _ _))
  | @go o rest hi => exact .aside (.of_move hi rfl rfl rfl rfl)
  | @work w rest hi => exact .aside (.of_move hi rfl (List.append_nil _).symm rfl rfl)

theorem Aside.hold (h : Aside k s t) (i : Nat) : holdOf t k i = holdOf s k i := by
  rw [holdOf, holdOf, h.writer, h.readers]

theorem after_of_not_on {a : Act K O W} (ha : a.on k = false) (h : Hold) : h.after k a = h := by
  cases a with
  | go o | work w => rfl
  | lock k' | unlock k' | rlock k' | runlock k' => exact if_neg (by simpa [Act.on] using ha)

theorem asks_of_not_on {a : Act K O W} (ha : a.on k = false) : a.asks k = false := by
  cases a with
  | lock k' | rlock k' => exact ha
  | _ => rfl

theorem retakes_append {b p : List (Act K O W)} (hb : ∀ a ∈ b, a.on k = false) (h : Hold) :
    retakes k h (b ++ p) = retakes k h p := by
  induction b with
  | nil => rfl
  | cons a b ih =>
    obtain ⟨ha, hb⟩ := List.forall_mem_cons.mp hb
    rw [List.cons_append, retakes, asks_of_not_on ha, after_of_not_on ha, Bool.false_or, ih hb]
    cases p with
    | nil => rw [retakes, Bool.and_false]
    | cons c p =>
      rw [retakes]
      cases decide (h ≠ .none) <;> simp

/-- A thread that is at an action on the lock stays there. -/
theorem Aside.at_on (h : Aside k s t) {a : Act K O W} {rest : List (Act K O W)} (hi : s.threads[i]? = some (a :: rest))
    (ha : a.on k = true) : t.threads[i]? = some (a :: rest) := by
  obtain ⟨b, q, hq, hp, hb⟩ := h.threads i _ hi
  cases b with
  | nil => rw [hq, hp, List.nil_append]
  | cons c b =>
    obtain ⟨rfl, -⟩ := List.cons.inj hp
    rw [hb a List.mem_cons_self] at ha
    cases ha

end One

/-! ## Frozen locks -/

/-- A lock that nobody gets any more: it is locked, or a writer has announced itself, and a thread that has the lock
takes it again first, or the announced writer will do so. -/
inductive Frozen (k : K) (s : Pool K O W) : Prop
  | inside {i : Nat} {p : List (Act K O W)} (hi : s.threads[i]? = some p) (hp : retakes k (holdOf s k i) p = true)
      (hw : s.writer k ≠ .free)
  | announced {i : Nat} {rest : List (Act K O W)} (hi : s.threads[i]? = some (.lock k :: rest))
      (hp : retakes k ⟨0, true⟩ rest = true) (hw : s.writer k = .waiting i)

/-- The program takes lock `k`. -/
def Asks (k : K) (p : List (Act K O W)) : Prop := ∃ a ∈ p, a.asks k = true

/-- The program takes lock `k` again while it has it locked. -/
def Relocks (k : K) (p : List (Act K O W)) : Prop := ∃ rest, .lock k :: rest <:+ p ∧ retakes k ⟨0, true⟩ rest = true

/-- Thread `j` will not get past a lock of `k`. -/
def Doomed (k : K) (j : Nat) (s : Pool K O W) : Prop :=
  ∃ p, s.threads[j]? = some p ∧ (Relocks k p ∨ Frozen k s ∧ Asks k p)

section Frozen

variable {prog : O → List (Act K O W)} {s t : Pool K O W} {i j : Nat} {k k₀ : K} {p rest : List (Act K O W)}

theorem retakes_none : retakes k .none p = false := by
  cases p with
  | nil => rfl
  | cons a p => simp [retakes]

theorem asks_of_retakes {h : Hold} (hp : retakes k h p = true) : Asks k p := by
  induction p generalizing h with
  | nil => cases hp
  | cons a p ih =>
    simp only [retakes, Bool.and_eq_true, Bool.or_eq_true] at hp
    rcases hp.2 with ha | hp
    · exact ⟨a, List.mem_cons_self, ha⟩
    · obtain ⟨b, hb, hask⟩ := ih hp
      exact ⟨b, List.mem_cons_of_mem _ hb, hask⟩

omit [DecidableEq K] in
/-- Nobody has a lock that is neither locked nor read. -/
theorem holdOf_eq_none (hw : ∀ j, s.writer k ≠ .holding j) (hr : s.readers k = []) (j : Nat) :
    holdOf s k j = .none := by
  simp [holdOf, Hold.none, hw, hr]

/-- A thread that has a lock locked is the only one that has it. -/
theorem Tidy.holdOf_holding (hs : Tidy k₀ s) (hw : s.writer k = .holding i) (j : Nat) :
    holdOf s k j = ⟨0, decide (i = j)⟩ := by
  simp [holdOf, hw, hs.exclusive k i hw]

theorem Frozen.aside (hf : Frozen k s) (h : Aside k s t) : Frozen k t := by
  cases hf with
  | @inside i p hi hp hw =>
    obtain ⟨b, q, hq, rfl, hb⟩ := h.threads i p hi
    rw [retakes_append hb, ← h.hold] at hp
    exact .inside hq hp (h.writer ▸ hw)
  | announced hi hp hw => exact .announced (h.at_on hi (decide_eq_true rfl)) hp (h.writer.trans hw)

theorem Frozen.of_aside (hs : Tidy k₀ s) (h : Aside k s t) (hf : Frozen k t) : Frozen k s := by
  cases hf with
  | @inside i q hi hp hw =>
    have hlt : i < s.threads.length := by
      by_contra hge
      rw [h.hold, hs.bound k i (by omega), retakes_none] at hp
      cases hp
    obtain ⟨b, q', hq', he, hb⟩ := h.threads i _ (List.getElem?_eq_getElem hlt)
    rw [hi] at hq'
    cases hq'
    rw [h.hold, ← retakes_append hb, ← he] at hp
    exact .inside (List.getElem?_eq_getElem hlt) hp (h.writer ▸ hw)
  | @announced i rest hi hp hw =>
    rw [h.writer] at hw
    obtain ⟨rest', hi'⟩ := hs.announced k i hw
    rw [h.at_on hi' (decide_eq_true rfl)] at hi
    cases hi
    exact .announced hi' hp hw

theorem Frozen.taken (hf : Frozen k s) : s.writer k ≠ .free := by
  cases hf with
  | inside _ _ hw => exact hw
  | announced _ _ hw => simp [hw]

/-- When the announced writer of a frozen lock gets it, it takes the lock again. -/
theorem Frozen.retakes_lock (hf : Frozen k s) (hi : s.threads[i]? = some (.lock k :: rest))
    (hw : s.writer k = .waiting i) (hr : s.readers k = []) : retakes k ⟨0, true⟩ rest = true := by
  cases hf with
  | inside _ hp _ =>
    rw [holdOf_eq_none (fun j => by simp [hw]) hr, retakes_none] at hp
    cases hp
  | announced hj hp hwait =>
    rw [hw] at hwait
    cases hwait
    rw [hi] at hj
    cases hj
    exact hp

theorem frozen_lock (hi : s.threads[i]? = some (.lock k :: rest)) (hr : s.readers k = [])
    (hp : retakes k ⟨0, true⟩ rest = true) : Frozen k
      { s with threads := s.threads.set i rest, writer := Function.update s.writer k (.holding i) } := by
  refine .inside (i := i) (p := rest) (Threads.getElem?_set_self hi) ?_ (by simp)
  simpa [holdOf, hr] using hp

/-- A frozen lock stays frozen. -/
theorem frozen_step (hs : Tidy k₀ s) (hf : Frozen k s) (h : step prog s i = some t) : Frozen k t := by
  cases lock_step k h with
  | aside h => exact hf.aside h
  | announce hi hw => exact absurd hw hf.taken
  | lock hi hw hr => exact frozen_lock hi hr (hf.retakes_lock hi hw hr)
  | @unlock rest hi hw =>
    cases hf with
    | @inside j p hj hp _ =>
      rw [hs.holdOf_holding hw] at hp
      by_cases hij : i = j
      · subst hij
        rw [hi] at hj
        cases hj
        have hafter : (⟨0, true⟩ : Hold).after k (.unlock k : Act K O W) = .none := by simp [Hold.after, Hold.none]
        simp [retakes, Act.asks, hafter, retakes_none] at hp
      · rw [decide_eq_false hij] at hp
        exact absurd (hp.symm.trans retakes_none) (by decide)
    | announced _ _ hwait => rw [hw] at hwait; cases hwait
  | rlock hi hw => exact absurd hw hf.taken
  | @runlock rest hi hr =>
    cases hf with
    | @inside j p hj hp hw =>
      by_cases hij : j = i
      · subst hij
        rw [hi] at hj
        cases hj
        simp only [retakes, Act.asks, Bool.and_eq_true, Bool.false_or] at hp
        refine .inside (p := rest) (Threads.getElem?_set_self hi) ?_ hw
        simpa [holdOf, Hold.after, List.count_erase_self] using hp.2
      · refine .inside (p := p) (Threads.getElem?_set_ne hj hij) ?_ hw
        simpa [holdOf, List.count_erase_of_ne hij] using hp
    | @announced j rest' hj hp hw =>
      refine .announced (Threads.getElem?_set_ne hj ?_) hp hw
      rintro rfl
      rw [hi] at hj
      cases hj

/-- A lock gets frozen only when a writer announces itself, or when it is free. -/
theorem frozen_back (hs : Tidy k₀ s) (hf : Frozen k t) (h : step prog s i = some t) (hw : s.writer k ≠ .free) :
    Frozen k s := by
  cases lock_step k h with
  | aside h => exact .of_aside hs h hf
  | announce _ hfree => exact absurd hfree hw
  | @lock rest hi hwait hr =>
    cases hf with
    | @inside j p hj hp _ =>
      by_cases hij : j = i
      · subst hij
        rw [Threads.getElem?_set_self hi] at hj
        cases hj
        simp only [holdOf, Function.update_self, hr] at hp
        exact .announced hi (by simpa using hp) hwait
      · simp [holdOf, hr, Ne.symm hij] at hp
        exact absurd (hp.symm.trans retakes_none) (by decide)
    | announced _ _ hj => simp at hj
  | @unlock rest hi hhold =>
    cases hf with
    | inside _ _ hne => simp at hne
    | announced _ _ hj => simp at hj
  | rlock _ hfree => exact absurd hfree hw
  | @runlock rest hi hr =>
    cases hf with
    | @inside j p hj hp _ =>
      by_cases hij : j = i
      · subst hij
        rw [Threads.getElem?_set_self hi] at hj
        cases hj
        refine .inside hi ?_ hw
        have hne : holdOf s k j ≠ .none := fun hnone => by
          have hcount := List.count_pos_iff.mpr hr
          have hzero : (s.readers k).count j = 0 := congrArg Hold.reads hnone
          omega
        rw [retakes, decide_eq_true hne, Bool.true_and, Act.asks, Bool.false_or]
        simpa [holdOf, Hold.after, List.count_erase_self] using hp
      · rw [List.getElem?_set_ne (Ne.symm hij)] at hj
        refine .inside hj ?_ hw
        simpa [holdOf, List.count_erase_of_ne hij] using hp
    | @announced j rest' hj hp hwait =>
      obtain ⟨r, hlock⟩ := hs.announced k j hwait
      have hij : j ≠ i := by
        rintro rfl
        rw [hi] at hlock
        cases hlock
      rw [List.getElem?_set_ne (Ne.symm hij)] at hj
      exact .announced hj hp hwait

theorem Asks.of_append {b : List (Act K O W)} (ha : Asks k (b ++ p)) (hb : ∀ a ∈ b, a.on k = false) : Asks k p := by
  obtain ⟨a, ha, hask⟩ := ha
  rcases List.mem_append.mp ha with ha | ha
  · rw [asks_of_not_on (hb a ha)] at hask
    cases hask
  · exact ⟨a, ha, hask⟩

@[simp] theorem relocks_nil : ¬Relocks k ([] : List (Act K O W)) := fun ⟨_, hsuf, _⟩ =>
  absurd (List.suffix_nil.mp hsuf) (List.cons_ne_nil _ _)

@[simp] theorem relocks_cons (a : Act K O W) :
    Relocks k (a :: p) ↔ (a = .lock k ∧ retakes k ⟨0, true⟩ p = true) ∨ Relocks k p := by
  constructor
  · rintro ⟨rest, hsuf, hre⟩
    rcases List.suffix_cons_iff.mp hsuf with he | hsuf
    · obtain ⟨rfl, rfl⟩ := List.cons.inj he
      exact .inl ⟨rfl, hre⟩
    · exact .inr ⟨rest, hsuf, hre⟩
  · rintro (⟨rfl, hre⟩ | ⟨rest, hsuf, hre⟩)
    · exact ⟨p, List.suffix_refl _, hre⟩
    · exact ⟨rest, hsuf.trans (List.suffix_cons a p), hre⟩

theorem Relocks.of_append {b : List (Act K O W)} (hr : Relocks k (b ++ p)) (hb : ∀ a ∈ b, a.on k = false) :
    Relocks k p := by
  induction b with
  | nil => exact hr
  | cons a b ih =>
    obtain ⟨ha, hb⟩ := List.forall_mem_cons.mp hb
    rcases (relocks_cons a).mp hr with ⟨rfl, -⟩ | hr
    · rw [Act.on, decide_eq_true rfl] at ha
      cases ha
    · exact ih hr hb

/-- What a thread will do after an action that does not take the lock. -/
theorem Asks.tail {a : Act K O W} (h : Asks k (a :: p)) (ha : a.asks k = false) : Asks k p := by
  obtain ⟨b, hb, hask⟩ := h
  rcases List.mem_cons.mp hb with rfl | hb
  · rw [ha] at hask
    cases hask
  · exact ⟨b, hb, hask⟩

theorem Relocks.tail {a : Act K O W} (h : Relocks k (a :: p)) (ha : a ≠ .lock k) : Relocks k p :=
  ((relocks_cons a).mp h).resolve_left fun h => ha h.1

/-- **A doomed thread stays doomed.** -/
theorem doomed_step (hs : Tidy k₀ s) (hd : Doomed k j s) (h : step prog s i = some t) : Doomed k j t := by
  have hfrozen : Frozen k s → Frozen k t := fun hf => frozen_step hs hf h
  obtain ⟨p, hj, hp⟩ := hd
  -- a thread that stays where it is, or goes past an action that does not take the lock
  have stays : t.threads[j]? = some p → Doomed k j t := fun hj' => ⟨p, hj', hp.imp_right (And.imp_left hfrozen)⟩
  have moves : ∀ {a rest}, p = a :: rest → a.asks k = false → t.threads[j]? = some rest → Doomed k j t := by
    rintro a rest rfl ha hj'
    refine ⟨rest, hj', hp.imp (fun hr => hr.tail ?_) fun hr => ⟨hfrozen hr.1, hr.2.tail ha⟩⟩
    rintro rfl
    rw [Act.asks, decide_eq_true rfl] at ha
    cases ha
  cases lock_step k h with
  | aside h =>
    obtain ⟨b, q, hq, rfl, hb⟩ := h.threads j p hj
    exact ⟨q, hq, hp.imp (fun hr => hr.of_append hb) fun hr => ⟨hfrozen hr.1, hr.2.of_append hb⟩⟩
  | announce hi hw => exact stays hj
  | @lock rest hi hw hr =>
    by_cases hij : j = i
    · subst hij
      rw [hi] at hj
      cases hj
      refine ⟨rest, Threads.getElem?_set_self hi, ?_⟩
      have inside (hre : retakes k ⟨0, true⟩ rest = true) := And.intro (frozen_lock hi hr hre) (asks_of_retakes hre)
      rcases hp with hrel | ⟨hf, -⟩
      · exact ((relocks_cons _).mp hrel).elim (fun h => .inr (inside h.2)) .inl
      · exact .inr (inside (hf.retakes_lock hi hw hr))
    · exact stays (Threads.getElem?_set_ne hj hij)
  | @rlock rest hi hw =>
    by_cases hij : j = i
    · subst hij
      rw [hi] at hj
      cases hj
      rcases hp with hr | ⟨hf, -⟩
      · exact ⟨rest, Threads.getElem?_set_self hi, .inl (hr.tail fun he => by cases he)⟩
      · exact absurd hw hf.taken
    · exact stays (Threads.getElem?_set_ne hj hij)
  | @unlock rest hi hw | @runlock rest hi hr =>
    by_cases hij : j = i
    · subst hij
      rw [hi] at hj
      cases hj
      exact moves rfl rfl (Threads.getElem?_set_self hi)
    · exact stays (Threads.getElem?_set_ne hj hij)

theorem Doomed.not_ended (hd : Doomed k j s) : s.threads[j]? ≠ some [] := by
  obtain ⟨p, hj, hp⟩ := hd
  rintro he
  rw [hj] at he
  cases he
  rcases hp with hr | ⟨-, a, ha, -⟩
  · exact relocks_nil hr
  · cases ha

end Frozen

end Locks
