import LaManchaland.Llmserver.Flag

/-!
# No orphaned child

`NoOrphan`: at most one child is live, `s.cancel` belongs to it, and `Stop` leaves none. A launch overwrites
`s.cancel`; it orphans the live child when the flag says that nothing runs, which is what a stale update makes it say
(`orphaned_by_second_start`). A run orphans no child exactly when no launch happens while the flag is clear and a
child is live (`noOrphan_iff`); in particular when no stale update happens (`noOrphan_of_noStaleUpdate`).
-/

namespace LaManchaland.Llmserver

open Runs

/-- The manager can still end every child that it has not ended. -/
structure NoOrphan (m : Machine) : Prop where
  /-- At most one child is live. -/
  unique : ∀ i j, LiveAt m i → LiveAt m j → i = j
  /-- `s.cancel` is its cancel function. -/
  owned : ∀ i, LiveAt m i → m.srv.cancel = some i
  /-- After `Stop` every child has exited or has a cancelled context. -/
  stopped : ∀ c ∈ (stop m).children, c.exited = true ∨ c.cancelled = true

/-- The child of `s.cancel` is the only live one. -/
def Owned (m : Machine) : Prop := ∀ i, LiveAt m i → m.srv.cancel = some i

/-- No launch while the flag is clear and a child is live. -/
def NoOverwrite (s : Sys) : Label → Prop
  | .start env | .restartStart env | .startNonBlocking env =>
    CanLaunch env s.machine → s.machine.srv.isRunning = true ∨ NoneLive s.machine
  | _ => True

section Functions

variable {m m' : Machine} {env : Env}

theorem noneLive_stopLocked (h : Owned m) : NoneLive (stopLocked m) :=
  noneLive_iff.mpr fun i hi => by
    obtain ⟨hl, hc⟩ := liveAt_stopLocked.mp hi
    exact hc (h i hl)

theorem Owned.of_noneLive (h : NoneLive m) : Owned m := fun i hi => absurd hi (noneLive_iff.mp h i)

theorem noOrphan_iff_owned : NoOrphan m ↔ Owned m := by
  refine ⟨fun h => h.owned, fun h => ⟨fun i j hi hj => ?_, h, fun c hc => ?_⟩⟩
  · have := (h i hi).symm.trans (h j hj)
    exact Option.some.inj this
  · exact Child.live_eq_false.mp (noneLive_stopLocked h c hc)

theorem noneLive_init (port : Int) : NoneLive (init port) := noneLive_iff.mpr (not_liveAt_init port)

/-- When `Start` launches, no child is left exactly when the flag was set or none was live. -/
theorem noneLive_ready (h : Owned m) : NoneLive (ready m) ↔ m.srv.isRunning = true ∨ NoneLive m := by
  unfold ready
  split
  · rename_i hr
    exact iff_of_true (noneLive_stopLocked h) (.inl hr)
  · rename_i hr
    simp [hr]

theorem owned_ready (h : Owned m) : Owned (ready m) := by
  unfold ready
  split
  · exact .of_noneLive (noneLive_stopLocked h)
  · exact h

/-- A launch leaves only its own child exactly when no child was live before. -/
theorem owned_launch {p : String} : Owned (launch p m) ↔ NoneLive m := by
  rw [noneLive_iff]
  constructor
  · intro h i hi
    have hc := h i (liveAt_launch.mpr (.inl hi))
    have : i = m.children.length := (Option.some.inj hc).symm
    exact absurd hi.lt (by omega)
  · intro h i hi
    rcases liveAt_launch.mp hi with hi | rfl
    · exact absurd hi (h i)
    · rfl

theorem owned_start (h : Owned m) :
    Owned (start env m).1 ↔ (CanLaunch env m → m.srv.isRunning = true ∨ NoneLive m) := by
  rcases start_cases env m with ⟨hp, he⟩ | ⟨_, hf, he⟩ | ⟨hl, he⟩ <;> rw [he]
  · exact iff_of_true h fun hl => absurd hp hl.1
  · exact iff_of_true (owned_ready h) fun hl => absurd hf hl.2
  · rw [owned_launch, noneLive_ready h]
    exact ⟨fun h' _ => h', fun h' => h' hl⟩

theorem owned_startNonBlocking (h : Owned m) :
    Owned (startNonBlocking env m) ↔ (CanLaunch env m → m.srv.isRunning = true ∨ NoneLive m) := by
  by_cases hl : CanLaunch env m
  · cases hr : m.srv.isRunning with
    | true =>
      refine iff_of_true ?_ fun _ => .inl rfl
      have : startNonBlocking env m = m := by simp [startNonBlocking, hr]
      rw [this]
      exact h
    | false =>
      rw [startNonBlocking_launch hl hr, owned_launch]
      simp [hl]
  · refine iff_of_true ?_ fun h' => absurd h' hl
    rcases startNonBlocking_cases env m with he | ⟨hl', _⟩
    · rw [he]; exact h
    · exact absurd hl' hl

theorem owned_exit {i : Nat} (h : Owned m) (he : exit i m = some m') : Owned m' := by
  intro j hj
  rw [exit_srv he]
  exact h j ((liveAt_exit he).mp hj).1

theorem owned_update {i : Nat} (h : Owned m) (he : update i m = some m') : Owned m' := by
  intro j hj
  rw [update_srv he]
  exact h j ((liveAt_update he).mp hj)

end Functions

/-! ## Steps and runs -/

variable {s t : Sys} {l : Label}

/-- From a state without orphans, a step makes none exactly when it overwrites no live child. -/
theorem step_owned (h : Owned s.machine) (hs : step s l = some t) : Owned t.machine ↔ NoOverwrite s l := by
  rcases step_cases hs with ⟨f, rfl, he⟩ | ⟨env, hl, he⟩ | ⟨rfl, he⟩ | ⟨env, rfl, he⟩ | ⟨rfl, he⟩ | ⟨i, rfl, he⟩ |
    ⟨i, rfl, he⟩
  · refine iff_of_true ?_ trivial
    rw [he]
    intro i hi
    simpa [set] using h i hi
  · rw [he, owned_start h]
    rcases hl with rfl | rfl <;> rfl
  · refine iff_of_true ?_ trivial
    rw [he]; exact .of_noneLive (noneLive_stopLocked h)
  · rw [he, owned_startNonBlocking h]; rfl
  · refine iff_of_true ?_ trivial
    rw [he]; exact h
  · exact iff_of_true (owned_exit h he) trivial
  · exact iff_of_true (owned_update h he) trivial

/-- **The exact condition for no orphans**, over every run of the manager. -/
theorem noOrphan_iff (port : Int) (ls : List Label) :
    Always step (fun s => NoOrphan s.machine) (sysInit port) ls ↔ Meets step NoOverwrite (sysInit port) ls := by
  have hstep : ∀ s l t, True → NoOrphan s.machine → step s l = some t → (NoOrphan t.machine ↔ NoOverwrite s l) := by
    intro s l t _ h hs
    rw [noOrphan_iff_owned]
    exact step_owned (noOrphan_iff_owned.mp h) hs
  exact always_iff_meets (fun _ _ _ _ _ => trivial) hstep trivial
    (noOrphan_iff_owned.mpr (.of_noneLive (noneLive_init port))) ls

/-! ## Without stale updates -/

/-- `s.cancel`, when set, belongs to the most recently launched child. -/
def CancelLast (m : Machine) : Prop := ∀ i, m.srv.cancel = some i → i + 1 = m.children.length

theorem cancelLast_stopLocked (m : Machine) : CancelLast (stopLocked m) := by
  intro i hi
  simp at hi

theorem cancelLast_launch (p : String) (m : Machine) : CancelLast (launch p m) := by
  intro i hi
  simp only [launch, Option.some.injEq] at hi
  simp [launch, hi]

theorem cancelLast_start {m : Machine} {env : Env} (h : CancelLast m) : CancelLast (start env m).1 := by
  rcases start_cases env m with ⟨_, he⟩ | ⟨_, _, he⟩ | ⟨_, he⟩ <;> rw [he]
  · exact h
  · unfold ready
    split
    · exact cancelLast_stopLocked m
    · exact h
  · exact cancelLast_launch _ _

/-- Every step keeps the owner of `s.cancel` the most recent child. -/
theorem step_cancelLast (h : CancelLast s.machine) (hs : step s l = some t) : CancelLast t.machine := by
  rcases step_cases hs with ⟨f, _, he⟩ | ⟨env, _, he⟩ | ⟨_, he⟩ | ⟨env, _, he⟩ | ⟨_, he⟩ | ⟨i, _, he⟩ | ⟨i, _, he⟩
  · rw [he]
    intro i hi
    exact h i (by simpa [set] using hi)
  · rw [he]; exact cancelLast_start h
  · rw [he]; exact cancelLast_stopLocked _
  · rw [he]
    rcases startNonBlocking_cases env s.machine with he | ⟨_, _, he⟩ <;> rw [he]
    · exact h
    · exact cancelLast_launch _ _
  · rw [he]; exact h
  · intro j hj
    rw [exit_length he]
    exact h j (by rw [← exit_srv he]; exact hj)
  · intro j hj
    rw [update_length he]
    exact h j (by rw [update_srv he] at hj; exact hj)

/-- While the flag is accurate, a launch finds no live child unless the flag is set. -/
theorem noOverwrite_of_flagAccurate (hf : FlagAccurate s.machine) (hc : CancelLast s.machine)
    (h : Owned s.machine) : NoOverwrite s l := by
  have hcan : ∀ env, CanLaunch env s.machine → s.machine.srv.isRunning = true ∨ NoneLive s.machine := by
    intro env _
    by_cases hl : LastLive s.machine
    · exact .inl (flagAccurate_def.mp hf hl)
    · refine .inr (noneLive_iff.mpr fun i hi => hl ?_)
      have : i + 1 = s.machine.children.length := hc i (h i hi)
      have hi' : i = s.machine.children.length - 1 := by omega
      rw [hi'] at hi
      exact hi
  cases l with
  | start env | restartStart env | startNonBlocking env => exact hcan env
  | _ => trivial

/-- **A run without stale updates orphans no child.** -/
theorem noOrphan_of_noStaleUpdate {port : Int} {ls : List Label} (h : Meets step NoStaleUpdate (sysInit port) ls) :
    Always step (fun s => NoOrphan s.machine) (sysInit port) ls := by
  let J : Sys → Prop := fun s =>
    LastOwned s.machine ∧ CancelLast s.machine ∧ FlagAccurate s.machine ∧ Owned s.machine
  have hstep : ∀ s l t, J s → NoStaleUpdate s l → step s l = some t → J t := by
    intro s l t ⟨ho, hc, hf, hw⟩ hl hs
    exact ⟨step_lastOwned ho hs, step_cancelLast hc hs, (step_flagAccurate ho hf hs).mpr hl,
      (step_owned hw hs).mpr (noOverwrite_of_flagAccurate hf hc hw)⟩
  have hJ : J (sysInit port) := by
    refine ⟨lastOwned_init port, ?_, flagAccurate_init port, .of_noneLive (noneLive_init port)⟩
    intro i hi
    cases hi
  exact (Always.of_meets hstep hJ h).mono fun s hs => noOrphan_iff_owned.mpr hs.2.2.2

/-! ## The orphan -/

/-- After the stale update, one more `Start`: it does not stop the second child, and takes over `s.cancel`. -/
def orphanRun : List Label := staleRun ++ [.start envUp]

theorem orphanRun_exec : (exec step (sysInit 8081) orphanRun).map
    (fun s => (s.machine.srv.cancel, s.machine.children.map Child.live)) = some (some 2, [false, true, true]) := by
  rfl

/-- Two children are live, and `s.cancel` reaches only one of them. -/
theorem orphaned_by_second_start :
    ¬∀ port ls, Always step (fun s => NoOrphan s.machine) (sysInit port) ls := by
  intro h
  obtain ⟨s, hs, he⟩ := Option.map_eq_some_iff.mp orphanRun_exec
  have hl : s.machine.children.map Child.live = [false, true, true] := congrArg Prod.snd he
  have live : ∀ i, (s.machine.children.map Child.live)[i]? = some true → LiveAt s.machine i := by
    intro i hi
    rw [List.getElem?_map] at hi
    obtain ⟨c, hc, hlive⟩ := Option.map_eq_some_iff.mp hi
    exact ⟨c, hc, hlive⟩
  have := ((h 8081 orphanRun).last hs).unique 1 2 (live 1 (by rw [hl]; rfl)) (live 2 (by rw [hl]; rfl))
  omega

end LaManchaland.Llmserver
