import LaManchaland.Llmserver.Live

/-!
# Who answers the health polls

`Start` polls a fixed port and not its child. A `Host` is the machine with the process that listens on the port, a child
of the manager or another program. Children bind the free port and exit at any time, cancelled or not; so do other
programs. A `Round` of `startOn` has what the processes do before one poll, and whether the listener answers it with
200; `Start` succeeds at the first answer (`startOn_start`: it is `start` with these polls).

`ownSuccess_iff`: in a reachable state, all successes of the next `Start` are answers of its own child exactly when
every earlier child has exited and no other program has or takes the port, or nothing can be launched.
-/

namespace LaManchaland.Llmserver

open Runs

/-! ## The port -/

/-- A process that listens on the port: a child of the manager, or another program. -/
inductive Process where
  | child (i : Nat)
  | other
  deriving DecidableEq

/-- The manager with its children, the calls of `Restart` under way, and the process that listens on the port. -/
structure Host where
  machine : Machine
  restarts : Nat
  port : Option Process

/-- What a process does on its own. -/
inductive ProcEvent where
  | exit (i : Nat)
  | bind (i : Nat)
  | otherExits
  | otherBinds
  deriving DecidableEq

/-- An exit frees the port. -/
def exitChild (i : Nat) (h : Host) : Option Host :=
  (exit i h.machine).map fun m => { h with machine := m, port := if h.port = some (.child i) then none else h.port }

/-- A child that has not exited binds the free port. -/
def bindPort (i : Nat) (h : Host) : Option Host :=
  match h.port, h.machine.children[i]? with
  | none, some c => if c.exited then none else some { h with port := some (.child i) }
  | _, _ => none

def procStep (h : Host) : ProcEvent → Option Host
  | .exit i => exitChild i h
  | .bind i => bindPort i h
  | .otherExits => if h.port = some .other then some { h with port := none } else none
  | .otherBinds => if h.port = none then some { h with port := some .other } else none

/-- An event that is not possible does not happen. -/
def happens (h : Host) (e : ProcEvent) : Host := (procStep h e).getD h

/-! ## `Start` -/

/-- What happens before a poll, and whether the listener answers it with 200. -/
structure Round where
  events : List ProcEvent
  answers : Bool

/-- The process that answers the poll of a round. -/
def answer (r : Round) (h : Host) : Option Process := if r.answers then h.port else none

/-- The polls, up to the first answer; with the process that gave it. -/
def pollLoop (rounds : Nat → Round) : List Nat → Host → Host × Option Process
  | [], h => (h, none)
  | k :: ks, h =>
    let h := (rounds k).events.foldl happens h
    match answer (rounds k) h with
    | some p => (h, some p)
    | none => pollLoop rounds ks h

/-- The outcome of a call: the error, and the process that answered the poll of a success. -/
structure Started where
  host : Host
  error : Option String
  answered : Option Process

/-- The host right after the launch. -/
def launched (env : Env) (h : Host) : Host := { h with machine := launch (findLLamaServer env) (ready h.machine) }

/-- `Start`; the polls of `env` are not used. -/
def startOn (env : Env) (rounds : Nat → Round) (h : Host) : Started :=
  if h.machine.srv.modelPath = "" then ⟨h, some "no model path set", none⟩
  else if findLLamaServer env = "" then
    ⟨{ h with machine := ready h.machine }, some "llama-server binary not found", none⟩
  else
    match pollLoop rounds (List.range 30) (launched env h) with
    | (h', some p) => ⟨h', none, some p⟩
    | (h', none) => ⟨h', some "llama-server failed to start within timeout", none⟩

/-- The steps of the manager and of the processes. -/
inductive HostLabel where
  | set (f : Setting)
  | start (env : Env) (rounds : Nat → Round)
  | stop
  | startNonBlocking (env : Env)
  | restart
  | restartStart (env : Env) (rounds : Nat → Round)
  | proc (e : ProcEvent)
  | update (i : Nat)

def hostStep (h : Host) : HostLabel → Option Host
  | .set f => some { h with machine := set f h.machine }
  | .start env rounds => some (startOn env rounds h).host
  | .stop => some { h with machine := stop h.machine }
  | .startNonBlocking env => some { h with machine := startNonBlocking env h.machine }
  | .restart => some (if restartCheck h.machine = none then { h with restarts := h.restarts + 1 } else h)
  | .restartStart env rounds =>
    match h.restarts with
    | 0 => none
    | n + 1 => some (startOn env rounds { h with restarts := n }).host
  | .proc e => procStep h e
  | .update i => (update i h.machine).map fun m => { h with machine := m }

def hostInit (listenPort : Int) : Host := ⟨init listenPort, 0, none⟩

/-! ## Alive children -/

/-- Child `i` has not exited. -/
def Alive (m : Machine) (i : Nat) : Prop := ∃ c, m.children[i]? = some c ∧ c.exited = false

/-- A child that listens on the port has not exited. -/
def PortOk (h : Host) : Prop := ∀ i, h.port = some (.child i) → Alive h.machine i

/-- No other program takes the port. -/
def Undisturbed (rounds : Nat → Round) : Prop := ∀ k, .otherBinds ∉ (rounds k).events

/-- Every success of `Start` is an answer of the child that it launches, which is then alive; `others` says whether
other programs may take the port during the call. -/
def OwnSuccess (others : Bool) (env : Env) (h : Host) : Prop :=
  ∀ rounds, (others = false → Undisturbed rounds) → (startOn env rounds h).error = none →
    (startOn env rounds h).answered = some (.child h.machine.children.length) ∧
      Alive (startOn env rounds h).host.machine h.machine.children.length

section Alive

variable {m m' : Machine} {i j : Nat} {env : Env}

theorem Alive.lt (h : Alive m i) : i < m.children.length := by
  obtain ⟨c, hc, _⟩ := h
  exact (List.getElem?_eq_some_iff.mp hc).1

theorem alive_stopLocked : Alive (stopLocked m) i ↔ Alive m i := by
  unfold Alive
  rw [stopLocked_children]
  cases m.srv.cancel with
  | none => rfl
  | some j =>
    simp only [Option.elim_some, List.getElem?_modify]
    cases m.children[i]? with
    | none => simp
    | some c => by_cases hj : j = i <;> simp [hj, Child.cancel]

theorem alive_ready : Alive (ready m) i ↔ Alive m i := by
  unfold ready
  split
  · exact alive_stopLocked
  · rfl

/-- A launch adds its own child. -/
theorem alive_launch {p : String} : Alive (launch p m) i ↔ Alive m i ∨ i = m.children.length := child_launch rfl

/-- An exit ends its own child. -/
theorem alive_exit (h : exit i m = some m') : Alive m' j ↔ Alive m j ∧ j ≠ i := child_exit (fun _ hc => hc) h

theorem alive_update (h : update i m = some m') : Alive m' j ↔ Alive m j := child_update (fun _ hc => hc) h

end Alive

/-! ## The polls -/

section Polls

variable {h h' : Host} {i j : Nat} {rounds : Nat → Round}

theorem PortOk.mono (hp : PortOk h) {m : Machine} {n : Nat} (hm : ∀ i, Alive h.machine i → Alive m i) :
    PortOk { h with machine := m, restarts := n } := fun i hi => hm i (hp i hi)

/-- What an event can do. -/
inductive ProcSpec (h : Host) : ProcEvent → Host → Prop
  | exit {i : Nat} {m : Machine} (hm : exit i h.machine = some m) : ProcSpec h (.exit i)
      { h with machine := m, port := if h.port = some (.child i) then none else h.port }
  | bind {i : Nat} (hp : h.port = none) (hi : Alive h.machine i) :
      ProcSpec h (.bind i) { h with port := some (.child i) }
  | otherExits (hp : h.port = some .other) : ProcSpec h .otherExits { h with port := none }
  | otherBinds (hp : h.port = none) : ProcSpec h .otherBinds { h with port := some .other }

theorem procStep_spec {e : ProcEvent} (hs : procStep h e = some h') : ProcSpec h e h' := by
  cases e with
  | exit i =>
    obtain ⟨m, hm, rfl⟩ := Option.map_eq_some_iff.mp hs
    exact .exit hm
  | bind i =>
    simp only [procStep, bindPort] at hs
    split at hs
    · rename_i c hp hc
      split at hs <;> cases hs
      rename_i he
      exact .bind hp ⟨c, hc, by simpa using he⟩
    · cases hs
  | otherExits =>
    simp only [procStep] at hs
    split at hs <;> cases hs
    rename_i hp
    exact .otherExits hp
  | otherBinds =>
    simp only [procStep] at hs
    split at hs <;> cases hs
    rename_i hp
    exact .otherBinds hp

/-- An event keeps the listener alive. -/
theorem portOk_procStep (hp : PortOk h) {e : ProcEvent} (hs : procStep h e = some h') : PortOk h' := by
  cases procStep_spec hs with
  | @exit i m hm =>
    intro j hj
    by_cases hi : h.port = some (.child i)
    · simp [hi] at hj
    · simp only [hi, if_false] at hj
      refine (alive_exit hm).mpr ⟨hp j hj, ?_⟩
      rintro rfl
      exact hi hj
  | bind _ hi =>
    intro j hj
    cases hj
    exact hi
  | otherExits => exact fun j hj => by cases hj
  | otherBinds => exact fun j hj => by cases hj

/-- What an event leaves alone. -/
theorem procStep_frame {e : ProcEvent} (hs : procStep h e = some h') :
    h'.machine.srv = h.machine.srv ∧ ∀ i, Alive h'.machine i → Alive h.machine i := by
  cases procStep_spec hs with
  | exit hm => exact ⟨exit_srv hm, fun j hj => ((alive_exit hm).mp hj).1⟩
  | bind => exact ⟨rfl, fun _ hj => hj⟩
  | otherExits => exact ⟨rfl, fun _ hj => hj⟩
  | otherBinds => exact ⟨rfl, fun _ hj => hj⟩

/-- Only another program that takes the port brings one there. -/
theorem procStep_other (hp : h.port ≠ some .other) {e : ProcEvent} (he : e ≠ .otherBinds)
    (hs : procStep h e = some h') : h'.port ≠ some .other := by
  cases procStep_spec hs with
  | exit hm =>
    simp only
    split
    · simp
    · exact hp
  | bind => simp
  | otherExits => simp
  | otherBinds => exact absurd rfl he

/-- What a possible event keeps is kept. -/
theorem happens_keeps {I : Host → Prop} {e : ProcEvent} (hI : ∀ h', procStep h e = some h' → I h') (h₀ : I h) :
    I (happens h e) := by
  unfold happens
  cases hs : procStep h e with
  | none => exact h₀
  | some h' => exact hI h' hs

/-- **The rule of the poll loop**: what its events keep holds when it ends. -/
theorem pollLoop_invariant {I : Host → Prop}
    (hI : ∀ k, ∀ e ∈ (rounds k).events, ∀ h h', I h → procStep h e = some h' → I h') :
    ∀ (ks : List Nat) (h : Host), I h → I (pollLoop rounds ks h).1
  | [], _, hi => hi
  | k :: ks, h, hi => by
    have hfold : I ((rounds k).events.foldl happens h) := by
      have hk := hI k
      generalize (rounds k).events = es at hk
      induction es generalizing h with
      | nil => exact hi
      | cons e es ih =>
        refine ih (happens h e) ?_ fun e' he' => hk e' (List.mem_cons_of_mem _ he')
        exact happens_keeps (fun h' hs => hk e List.mem_cons_self h h' hi hs) hi
    have hrest := pollLoop_invariant hI ks _ hfold
    unfold pollLoop
    simp only
    split
    · exact hfold
    · exact hrest

theorem answer_port {r : Round} {p : Process} (ha : answer r h = some p) : h.port = some p := by
  unfold answer at ha
  split at ha
  · exact ha
  · cases ha

/-- The process that answers listens on the port. -/
theorem pollLoop_answered {p : Process} : ∀ (ks : List Nat) (h : Host), (pollLoop rounds ks h).2 = some p →
    (pollLoop rounds ks h).1.port = some p
  | [], _, ha => by cases ha
  | k :: ks, h, ha => by
    cases hans : answer (rounds k) ((rounds k).events.foldl happens h) with
    | some j =>
      simp only [pollLoop, hans, Option.some.injEq] at ha ⊢
      rw [← ha]
      exact answer_port hans
    | none =>
      simp only [pollLoop, hans] at ha ⊢
      exact pollLoop_answered ks _ ha

/-- What the polls leave alone. -/
theorem pollLoop_frame (ks : List Nat) (h : Host) :
    (pollLoop rounds ks h).1.machine.srv = h.machine.srv ∧
      ∀ i, Alive (pollLoop rounds ks h).1.machine i → Alive h.machine i := by
  refine pollLoop_invariant (I := fun h' => h'.machine.srv = h.machine.srv ∧
    ∀ i, Alive h'.machine i → Alive h.machine i) (fun k e _ h₁ h₂ hi hs => ?_) ks h ⟨rfl, fun _ ha => ha⟩
  obtain ⟨hsrv, halive⟩ := procStep_frame hs
  exact ⟨hsrv.trans hi.1, fun i ha => hi.2 i (halive i ha)⟩

/-- Undisturbed polls bring no other program to the port. -/
theorem pollLoop_other (hu : Undisturbed rounds) (ks : List Nat) (hp : h.port ≠ some .other) :
    (pollLoop rounds ks h).1.port ≠ some .other := by
  refine pollLoop_invariant (I := fun h => h.port ≠ some .other) (fun k e he h h' hi hs => ?_) ks h hp
  refine procStep_other hi ?_ hs
  rintro rfl
  exact hu k he

end Polls

/-! ## The calls -/

section Calls

variable {h h' : Host} {env : Env} {rounds : Nat → Round} {i : Nat}

theorem startOn_launch (hl : CanLaunch env h.machine) : startOn env rounds h =
    match pollLoop rounds (List.range 30) (launched env h) with
    | (h', some p) => ⟨h', none, some p⟩
    | (h', none) => ⟨h', some "llama-server failed to start within timeout", none⟩ :=
  (if_neg hl.1).trans (if_neg hl.2)

theorem startOn_host (hl : CanLaunch env h.machine) :
    (startOn env rounds h).host = (pollLoop rounds (List.range 30) (launched env h)).1 ∧
      (startOn env rounds h).answered = (pollLoop rounds (List.range 30) (launched env h)).2 ∧
      ((startOn env rounds h).error = none ↔
        (pollLoop rounds (List.range 30) (launched env h)).2.isSome = true) := by
  rw [startOn_launch hl]
  rcases pollLoop rounds (List.range 30) (launched env h) with ⟨h', _ | p⟩ <;> simp

/-- Without a launch there is no success. -/
theorem startOn_error (hl : ¬CanLaunch env h.machine) : (startOn env rounds h).error ≠ none := by
  unfold startOn
  by_cases hp : h.machine.srv.modelPath = ""
  · simp [hp]
  · by_cases hf : findLLamaServer env = ""
    · simp [hp, hf]
    · exact absurd ⟨hp, hf⟩ hl

theorem portOk_launched (hp : PortOk h) : PortOk (launched env h) :=
  hp.mono fun _ hi => alive_launch.mpr (.inl (alive_ready.mpr hi))

theorem portOk_startOn (hp : PortOk h) : PortOk (startOn env rounds h).host := by
  by_cases hl : CanLaunch env h.machine
  · rw [(startOn_host hl).1]
    exact pollLoop_invariant (I := PortOk) (fun k e _ h h' hi hs => portOk_procStep hi hs) _ _ (portOk_launched hp)
  · unfold startOn
    by_cases hm : h.machine.srv.modelPath = ""
    · simpa only [hm, if_true] using hp
    · by_cases hf : findLLamaServer env = ""
      · simp only [hm, hf, if_true, if_false]
        exact hp.mono fun _ hi => alive_ready.mpr hi
      · exact absurd ⟨hm, hf⟩ hl

/-- **Every step keeps the listener alive.** -/
theorem portOk_step {l : HostLabel} (hp : PortOk h) (hs : hostStep h l = some h') : PortOk h' := by
  cases l with
  | set f => cases hs; exact hp.mono fun _ hi => hi
  | start env rounds => cases hs; exact portOk_startOn hp
  | stop => cases hs; exact hp.mono fun _ hi => alive_stopLocked.mpr hi
  | startNonBlocking env =>
    cases hs
    refine hp.mono fun i hi => ?_
    rcases startNonBlocking_cases env h.machine with he | ⟨_, _, he⟩
    · rw [he]; exact hi
    · rw [he]; exact alive_launch.mpr (.inl hi)
  | restart =>
    simp only [hostStep, Option.some.injEq] at hs
    rw [← hs]
    split
    · exact hp
    · exact hp
  | restartStart env rounds =>
    simp only [hostStep] at hs
    split at hs
    · cases hs
    · cases hs
      exact portOk_startOn hp
  | proc e => exact portOk_procStep hp hs
  | update i =>
    obtain ⟨m, hm, rfl⟩ := Option.map_eq_some_iff.mp hs
    exact hp.mono fun _ hi => (alive_update hm).mpr hi

end Calls

/-! ## `Start` with these polls is `start` -/

section Refinement

variable {rounds : Nat → Round}

/-- More polls do not change an answer. -/
theorem pollLoop_append (ks ks' : List Nat) : ∀ h : Host, pollLoop rounds (ks ++ ks') h =
    match pollLoop rounds ks h with
    | (h', some p) => (h', some p)
    | (h', none) => pollLoop rounds ks' h' := by
  induction ks with
  | nil => intro h; rfl
  | cons k ks ih =>
    intro h
    cases hans : answer (rounds k) ((rounds k).events.foldl happens h) with
    | some j => simp only [List.cons_append, pollLoop, hans]
    | none =>
      simp only [List.cons_append, pollLoop, hans]
      exact ih _

/-- The outside of a call as `start` sees it: a poll is healthy when it or one before it has been answered. -/
def healthOf (env : Env) (rounds : Nat → Round) (h : Host) : Env :=
  { env with health := fun k => (pollLoop rounds (List.range (k + 1)) (launched env h)).2.isSome }

theorem pollHealth_healthOf (env : Env) (h : Host) : pollHealth (healthOf env rounds h) 30 =
    (pollLoop rounds (List.range 30) (launched env h)).2.isSome := by
  rw [Bool.eq_iff_iff, pollHealth, List.any_eq_true]
  constructor
  · rintro ⟨k, hk, hans⟩
    obtain ⟨n, hn⟩ := Nat.exists_eq_add_of_lt (List.mem_range.mp hk)
    have hsplit : List.range 30 = List.range (k + 1) ++ (List.range n).map (k + 1 + ·) := by
      rw [hn, Nat.add_right_comm, List.range_add]
    rw [hsplit, pollLoop_append]
    obtain ⟨i, hi⟩ := Option.isSome_iff_exists.mp hans
    rcases hp : pollLoop rounds (List.range (k + 1)) (launched env h) with ⟨h', j⟩
    rw [hp] at hi
    cases hi
    rfl
  · intro hans
    exact ⟨29, List.mem_range.mpr (by omega), hans⟩

/-- **The polls refine the call**: the error and the manager are those of `start`. -/
theorem startOn_start (env : Env) (rounds : Nat → Round) (h : Host) :
    (startOn env rounds h).error = (start (healthOf env rounds h) h.machine).2 ∧
      (startOn env rounds h).host.machine.srv = (start (healthOf env rounds h) h.machine).1.srv := by
  have hfind : findLLamaServer (healthOf env rounds h) = findLLamaServer env := rfl
  by_cases hp : h.machine.srv.modelPath = ""
  · have hs : start (healthOf env rounds h) h.machine = (h.machine, some "no model path set") := if_pos hp
    rw [hs, startOn, if_pos hp]
    exact ⟨rfl, rfl⟩
  · by_cases hf : findLLamaServer env = ""
    · have hs : start (healthOf env rounds h) h.machine = (ready h.machine, some "llama-server binary not found") :=
        (if_neg hp).trans (if_pos (hfind.trans hf))
      rw [hs, startOn, if_neg hp, if_pos hf]
      exact ⟨rfl, rfl⟩
    · have hs : start (healthOf env rounds h) h.machine = (launch (findLLamaServer env) (ready h.machine),
          if pollHealth (healthOf env rounds h) 30 then none
          else some "llama-server failed to start within timeout") :=
        (if_neg hp).trans (if_neg (hfind ▸ hf))
      have hsrv : (pollLoop rounds (List.range 30) (launched env h)).1.machine.srv = _ := (pollLoop_frame _ _).1
      rw [hs, startOn_launch ⟨hp, hf⟩, pollHealth_healthOf]
      rcases hloop : pollLoop rounds (List.range 30) (launched env h) with ⟨h', _ | i⟩ <;> rw [hloop] at hsrv
      · exact ⟨rfl, hsrv⟩
      · exact ⟨rfl, hsrv⟩

end Refinement

/-! ## Whose answer a success is -/

section Success

variable {h : Host} {env : Env} {others : Bool}

/-- When every earlier child has exited and no other program is there, only the new child can listen. -/
theorem ownSuccess_of_exited (hp : PortOk h)
    (hx : CanLaunch env h.machine → others = false ∧ h.port ≠ some .other ∧ ∀ i, ¬Alive h.machine i) :
    OwnSuccess others env h := by
  intro rounds hu herr
  by_cases hl : CanLaunch env h.machine
  · obtain ⟨hothers, hport, hexited⟩ := hx hl
    obtain ⟨hhost, hans, hiff⟩ : (startOn env rounds h).host = _ ∧ (startOn env rounds h).answered = _ ∧ _ :=
      startOn_host hl
    obtain ⟨p, hi⟩ := Option.isSome_iff_exists.mp (hiff.mp herr)
    have hlistens : (startOn env rounds h).host.port = some p := by rw [hhost]; exact pollLoop_answered _ _ hi
    cases p with
    | other =>
      have hnone := pollLoop_other (hu hothers) (List.range 30) (h := launched env h) hport
      rw [← hhost] at hnone
      exact absurd hlistens hnone
    | child i =>
      have hok : PortOk (startOn env rounds h).host := portOk_startOn hp
      have halive : Alive (startOn env rounds h).host.machine i := hok i hlistens
      have hbefore : Alive (launched env h).machine i :=
        (pollLoop_frame (List.range 30) (launched env h)).2 i (hhost ▸ halive)
      rcases alive_launch.mp hbefore with hold | hnew
      · exact absurd (alive_ready.mp hold) (hexited i)
      · rw [ready_length] at hnew
        subst hnew
        exact ⟨hans.trans hi, halive⟩
  · exact absurd herr (startOn_error hl)

/-- Polls that are all answered by the process on the port; `e` happens before when it is free. -/
def impostor (h : Host) (e : ProcEvent) : Nat → Round := fun _ => ⟨if h.port = none then [e] else [], true⟩

/-- What listens on the port, or takes the free port before the first poll, answers it. -/
theorem pollLoop_impostor {e : ProcEvent} {p : Process} (hp : h.port = some p ∨
    h.port = none ∧ procStep (launched env h) e = some { launched env h with port := some p }) :
    (pollLoop (impostor h e) (List.range 30) (launched env h)).2 = some p := by
  have hfirst : ((impostor h e 0).events.foldl happens (launched env h)).port = some p := by
    rcases hp with hport | ⟨hport, hs⟩
    · have hnone : (impostor h e 0).events = [] := by simp [impostor, hport]
      rw [hnone]
      exact hport
    · have hone : (impostor h e 0).events = [e] := by simp [impostor, hport]
      rw [hone]
      simp [happens, hs]
  have hans : answer (impostor h e 0) ((impostor h e 0).events.foldl happens (launched env h)) = some p := hfirst
  rw [show List.range 30 = 0 :: (List.range 29).map (· + 1) from rfl, pollLoop]
  simp only [hans]

/-- So the process that answers is the new child, if a success is always its own. -/
theorem own_of_impostor (ho : OwnSuccess others env h) (hl : CanLaunch env h.machine) {e : ProcEvent} {p : Process}
    (he : others = false → e ≠ .otherBinds) (hp : h.port = some p ∨
      h.port = none ∧ procStep (launched env h) e = some { launched env h with port := some p }) :
    p = .child h.machine.children.length := by
  have hans := pollLoop_impostor hp
  obtain ⟨_, hanswered, hiff⟩ : (startOn env (impostor h e) h).host = _ ∧
      (startOn env (impostor h e) h).answered = _ ∧ _ := startOn_host hl
  have hu : others = false → Undisturbed (impostor h e) := by
    intro hothers k hk
    simp only [impostor] at hk
    split at hk
    · exact he hothers (List.mem_singleton.mp hk).symm
    · cases hk
  have herr : (startOn env (impostor h e) h).error = none := hiff.mpr (by rw [hans]; rfl)
  exact Option.some.inj ((hanswered.trans hans).symm.trans (ho _ hu herr).1)

/-- Then there is no earlier child and no other program that could answer. -/
theorem exited_of_ownSuccess (hp : PortOk h) (ho : OwnSuccess others env h) (hl : CanLaunch env h.machine) :
    others = false ∧ h.port ≠ some .other ∧ ∀ i, ¬Alive h.machine i := by
  have hport : h.port = none := by
    cases hport : h.port with
    | none => rfl
    | some p =>
      have hown := own_of_impostor ho hl (e := .otherExits) (fun _ => by simp) (.inl hport)
      rw [hown] at hport
      have hlt := (hp _ hport).lt
      omega
  refine ⟨?_, by simp [hport], fun i hi => ?_⟩
  · by_contra hothers
    have hown := own_of_impostor ho hl (e := .otherBinds) (p := .other) (fun hf => absurd hf hothers)
      (.inr ⟨hport, if_pos hport⟩)
    cases hown
  · obtain ⟨c, hc, he⟩ := alive_launch (p := findLLamaServer env).mpr (.inl (alive_ready.mpr hi))
    have hbind : procStep (launched env h) (.bind i) = some { launched env h with port := some (.child i) } := by
      have hfree : (launched env h).port = none := hport
      have hchild : (launched env h).machine.children[i]? = some c := hc
      simp [procStep, bindPort, hfree, hchild, he]
    have hown := own_of_impostor ho hl (fun _ => by simp) (.inr ⟨hport, hbind⟩)
    have hlt := hi.lt
    cases hown
    omega

end Success

/-- **When `Start` succeeds only for its own child**, in every reachable state: nothing can be launched, or every child
that was launched before has exited and no other program has the port or may take it. -/
theorem ownSuccess_iff {listenPort : Int} {ls : List HostLabel} {h : Host}
    (hr : exec hostStep (hostInit listenPort) ls = some h) (env : Env) (others : Bool) :
    OwnSuccess others env h ↔
      (CanLaunch env h.machine → others = false ∧ h.port ≠ some .other ∧ ∀ i, ¬Alive h.machine i) := by
  have hp : PortOk h := exec_invariant (I := PortOk) (fun _ _ _ hp hs => portOk_step hp hs)
    (fun i hi => by cases hi) hr
  exact ⟨fun ho hl => exited_of_ownSuccess hp ho hl, ownSuccess_of_exited hp⟩

/-- The polls of a healthy child `i`, which binds the port first. -/
def healthyRounds (i : Nat) : Nat → Round := fun _ => ⟨[.bind i], true⟩

/-- A server is started and stopped; its child goes on. -/
def stoppedRun : List HostLabel := [.set (.setModelPath "/m.gguf"), .start envUp (healthyRounds 0), .stop]

theorem ownSuccess_iff_stopped : ∃ h, exec hostStep (hostInit 8081) (stoppedRun ++ [.proc (.exit 0)]) = some h ∧
    (OwnSuccess false envUp h ↔
      (CanLaunch envUp h.machine → false = false ∧ h.port ≠ some .other ∧ ∀ i, ¬Alive h.machine i)) :=
  ⟨_, rfl, @ownSuccess_iff 8081 (stoppedRun ++ [.proc (.exit 0)]) _ rfl envUp false⟩

/-- The next `Start` can be answered by the stopped child, which is still there. -/
theorem success_of_stopped : ¬∀ (ls : List HostLabel) (h : Host) (env : Env),
    exec hostStep (hostInit 8081) ls = some h → OwnSuccess false env h := by
  intro h
  have hrounds : Undisturbed (healthyRounds 1) := fun k => by simp [healthyRounds]
  have hown := h stoppedRun _ envUp rfl (healthyRounds 1) (fun _ => hrounds) (by decide)
  exact absurd hown.1 (by decide)

end LaManchaland.Llmserver
