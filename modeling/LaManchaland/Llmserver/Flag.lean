import LaManchaland.Llmserver.Live

/-!
# The accuracy of `isRunning`

`FlagAccurate`: while the most recently launched child is live, `isRunning` is set. Every exit goroutine clears the
flag, whichever child it belongs to, so a late update of an earlier child clears the flag of the current one
(`flag_cleared_by_stale_update`). A run keeps the flag accurate exactly when no update lands while the most recent
child is live (`flagAccurate_iff`): all other steps are harmless, because the context of the most recent child is
always the one that `s.cancel` cancels (`LastOwned`).
-/

namespace LaManchaland.Llmserver

open Runs

/-- The most recently launched child is alive with an un-cancelled context only while `isRunning` is set. -/
def FlagAccurate (m : Machine) : Prop :=
  ∀ c, m.children.getLast? = some c → c.live = true → m.srv.isRunning = true

/-- The most recently launched child is live. -/
def LastLive (m : Machine) : Prop := LiveAt m (m.children.length - 1)

theorem lastLive_iff {m : Machine} : LastLive m ↔ ∃ c, m.children.getLast? = some c ∧ c.live = true := by
  rw [List.getLast?_eq_getElem?]
  rfl

theorem flagAccurate_def {m : Machine} : FlagAccurate m ↔ (LastLive m → m.srv.isRunning = true) := by
  rw [lastLive_iff]
  exact ⟨fun h ⟨c, hc, hl⟩ => h c hc hl, fun h c hc hl => h ⟨c, hc, hl⟩⟩

/-- No exit goroutine runs its update while the most recently launched child is live. -/
def NoStaleUpdate (s : Sys) : Label → Prop
  | .update _ => ¬∃ c, s.machine.children.getLast? = some c ∧ c.live = true
  | _ => True

/-! ## The owner of `s.cancel` -/

/-- `s.cancel` belongs to the most recently launched child while that child is live. -/
def LastOwned (m : Machine) : Prop := LastLive m → m.srv.cancel = some (m.children.length - 1)

section Functions

variable {m m' : Machine} {env : Env}

theorem lastOwned_init (port : Int) : LastOwned (init port) := fun h => absurd h (not_liveAt_init port _)

theorem flagAccurate_init (port : Int) : FlagAccurate (init port) :=
  flagAccurate_def.mpr fun h => absurd h (not_liveAt_init port _)

theorem lastOwned_launch (p : String) (m : Machine) : LastOwned (launch p m) := by
  intro _
  simp [launch]

/-- After `stopLocked` the most recently launched child is not live. -/
theorem not_lastLive_stopLocked (h : LastOwned m) : ¬LastLive (stopLocked m) := by
  unfold LastLive
  rw [stopLocked_length, liveAt_stopLocked]
  exact fun ⟨hl, hc⟩ => hc (h hl)

theorem lastOwned_stopLocked (h : LastOwned m) : LastOwned (stopLocked m) :=
  fun hl => absurd hl (not_lastLive_stopLocked h)

theorem lastOwned_ready (h : LastOwned m) : LastOwned (ready m) := by
  unfold ready
  split
  · exact lastOwned_stopLocked h
  · exact h

theorem flagAccurate_launch (p : String) (m : Machine) : FlagAccurate (launch p m) := fun _ _ _ => rfl

theorem flagAccurate_stopLocked (h : LastOwned m) : FlagAccurate (stopLocked m) :=
  flagAccurate_def.mpr fun hl => absurd hl (not_lastLive_stopLocked h)

theorem flagAccurate_ready (ho : LastOwned m) (h : FlagAccurate m) : FlagAccurate (ready m) := by
  unfold ready
  split
  · exact flagAccurate_stopLocked ho
  · exact h

theorem lastOwned_start (h : LastOwned m) : LastOwned (start env m).1 := by
  rcases start_cases env m with ⟨_, he⟩ | ⟨_, _, he⟩ | ⟨_, he⟩ <;> rw [he]
  · exact h
  · exact lastOwned_ready h
  · exact lastOwned_launch _ _

theorem flagAccurate_start (ho : LastOwned m) (h : FlagAccurate m) : FlagAccurate (start env m).1 := by
  rcases start_cases env m with ⟨_, he⟩ | ⟨_, _, he⟩ | ⟨_, he⟩ <;> rw [he]
  · exact h
  · exact flagAccurate_ready ho h
  · exact flagAccurate_launch _ _

theorem lastOwned_startNonBlocking (h : LastOwned m) : LastOwned (startNonBlocking env m) := by
  rcases startNonBlocking_cases env m with he | ⟨_, _, he⟩ <;> rw [he]
  · exact h
  · exact lastOwned_launch _ _

theorem flagAccurate_startNonBlocking (h : FlagAccurate m) : FlagAccurate (startNonBlocking env m) := by
  rcases startNonBlocking_cases env m with he | ⟨_, _, he⟩ <;> rw [he]
  · exact h
  · exact flagAccurate_launch _ _

theorem lastLive_exit {i : Nat} (h : exit i m = some m') (hl : LastLive m') : LastLive m := by
  unfold LastLive at hl ⊢
  rw [exit_length h] at hl
  exact ((liveAt_exit h).mp hl).1

theorem lastLive_update {i : Nat} (h : update i m = some m') : LastLive m' ↔ LastLive m := by
  unfold LastLive
  rw [update_length h]
  exact liveAt_update h

end Functions

/-! ## Steps and runs -/

variable {s t : Sys} {l : Label}

/-- Every step keeps the owner of `s.cancel`. -/
theorem step_lastOwned (h : LastOwned s.machine) (hs : step s l = some t) : LastOwned t.machine := by
  rcases step_cases hs with ⟨f, _, he⟩ | ⟨env, _, he⟩ | ⟨_, he⟩ | ⟨env, _, he⟩ | ⟨_, he⟩ | ⟨i, _, he⟩ | ⟨i, _, he⟩
  · rw [he]
    intro hl
    simpa [set] using h hl
  · rw [he]; exact lastOwned_start h
  · rw [he]; exact lastOwned_stopLocked h
  · rw [he]; exact lastOwned_startNonBlocking h
  · rw [he]; exact h
  · intro hl
    rw [exit_srv he, exit_length he]
    exact h (lastLive_exit he hl)
  · intro hl
    rw [update_srv he, update_length he]
    exact h ((lastLive_update he).mp hl)

/-- From an accurate flag, a step keeps it accurate exactly when it is no stale update. -/
theorem step_flagAccurate (ho : LastOwned s.machine) (h : FlagAccurate s.machine) (hs : step s l = some t) :
    FlagAccurate t.machine ↔ NoStaleUpdate s l := by
  rcases step_cases hs with ⟨f, rfl, he⟩ | ⟨env, hl, he⟩ | ⟨rfl, he⟩ | ⟨env, rfl, he⟩ | ⟨rfl, he⟩ | ⟨i, rfl, he⟩ |
    ⟨i, rfl, he⟩
  · refine iff_of_true ?_ trivial
    rw [he]
    intro c hc hl
    simpa [set] using h c hc hl
  · refine iff_of_true ?_ (by rcases hl with rfl | rfl <;> trivial)
    rw [he]; exact flagAccurate_start ho h
  · refine iff_of_true ?_ trivial
    rw [he]; exact flagAccurate_stopLocked ho
  · refine iff_of_true ?_ trivial
    rw [he]; exact flagAccurate_startNonBlocking h
  · refine iff_of_true ?_ trivial
    rw [he]; exact h
  · refine iff_of_true (flagAccurate_def.mpr fun hl => ?_) trivial
    rw [exit_srv he]
    exact flagAccurate_def.mp h (lastLive_exit he hl)
  · rw [flagAccurate_def, update_srv he, lastLive_update he, lastLive_iff]
    simp [NoStaleUpdate]

/-- **The exact condition for an accurate flag**, over every run of the manager. -/
theorem flagAccurate_iff (port : Int) (ls : List Label) :
    Always step (fun s => FlagAccurate s.machine) (sysInit port) ls ↔ Meets step NoStaleUpdate (sysInit port) ls :=
  always_iff_meets (fun _ _ _ => step_lastOwned) (fun _ _ _ => step_flagAccurate) (lastOwned_init port)
    (flagAccurate_init port) ls

/-! ## The stale update -/

/-- Start, stop, the first child exits, start again, and then the update of the first child's goroutine. -/
def staleRun : List Label :=
  [.set (.setModelPath "/m.gguf"), .start envUp, .stop, .exit 0, .start envUp, .update 0]

/-- The state after `staleRun`: the flag is clear, the second child is live. -/
theorem staleRun_exec : (exec step (sysInit 8081) staleRun).map
    (fun s => (s.machine.srv.isRunning, s.machine.children.map Child.live)) = some (false, [false, true]) := by
  rfl

/-- The late update of the first child clears the flag of the second, which is live. -/
theorem flag_cleared_by_stale_update :
    ¬∀ port ls, Always step (fun s => FlagAccurate s.machine) (sysInit port) ls := by
  intro h
  obtain ⟨s, hs, he⟩ := Option.map_eq_some_iff.mp staleRun_exec
  have hr : s.machine.srv.isRunning = false := congrArg Prod.fst he
  have hl : s.machine.children.map Child.live = [false, true] := congrArg Prod.snd he
  obtain ⟨c, hc, hlive⟩ : ∃ c, s.machine.children.getLast? = some c ∧ c.live = true := by
    have := congrArg List.getLast? hl
    rw [List.getLast?_map] at this
    exact Option.map_eq_some_iff.mp this
  have := (h 8081 staleRun).last hs c hc hlive
  rw [hr] at this
  cases this

end LaManchaland.Llmserver
