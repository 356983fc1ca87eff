import LaManchaland.Llmserver.Live

/-!
# When `Start` fails

Children may exit while `Start` runs, the one that it launches as well (`exitAll`); their exit goroutines wait for the
lock. As `Start` does not look at its children, it does not matter when they exit (`start_exitAll`).

Of the three error exits the first leaves everything as it was, the second may have stopped a running server, and the
third leaves the flag set and the new child live. `clean_iff`: a failing `Start` leaves the state before the call or a
stopped server exactly when the server was not launched in vain and, without a binary, no child but the owner of
`s.cancel` outlives the call.
-/

namespace LaManchaland.Llmserver

open Runs

def Child.exit (c : Child) : Child := { c with exited := true }

/-- The children that are told have exited. -/
def exitAll (dead : Nat → Bool) (m : Machine) : Machine :=
  { m with children := m.children.mapIdx fun i c => if dead i then c.exit else c }

/-- The state before the call, or a stopped server without a live child; either with the exits during the call. -/
def Clean (env : Env) (dead : Nat → Bool) (m : Machine) : Prop :=
  exitAll dead (start env m).1 = exitAll dead m ∨
    (exitAll dead (start env m).1).srv.isRunning = false ∧ NoneLive (exitAll dead (start env m).1)

/-- The children that outlive the call have the context of `s.cancel`. -/
def OthersExit (dead : Nat → Bool) (m : Machine) : Prop :=
  ∀ i, LiveAt m i → m.srv.cancel = some i ∨ dead i = true

section Exits

variable {m : Machine} {env : Env} {dead : Nat → Bool} {i : Nat}

@[simp] theorem exitAll_srv : (exitAll dead m).srv = m.srv := rfl

theorem exitAll_getElem? :
    (exitAll dead m).children[i]? = m.children[i]?.map fun c => if dead i then c.exit else c := by
  simp [exitAll]

theorem liveAt_exitAll : LiveAt (exitAll dead m) i ↔ LiveAt m i ∧ dead i = false := by
  unfold LiveAt
  rw [exitAll_getElem?]
  cases hc : m.children[i]? with
  | none => simp
  | some c => cases hd : dead i <;> simp [Child.live, Child.exit]

theorem exitAll_length : (exitAll dead m).children.length = m.children.length := by simp [exitAll]

theorem noneLive_exitAll : NoneLive (exitAll dead m) ↔ ∀ i, LiveAt m i → dead i = true := by
  rw [noneLive_iff]
  refine forall_congr' fun i => ?_
  rw [liveAt_exitAll, not_and, Bool.not_eq_false]

/-- After `stopLocked`, the owner of `s.cancel` does not count. -/
theorem noneLive_exitAll_stopLocked : NoneLive (exitAll dead (stopLocked m)) ↔ OthersExit dead m := by
  rw [noneLive_exitAll]
  refine forall_congr' fun i => ?_
  rw [liveAt_stopLocked, and_imp, ne_eq]
  exact imp_congr_right fun _ => or_iff_not_imp_left.symm

/-! It does not matter when the children exit: `Start` does the same to children that have exited before. -/

theorem exit_twice (dead : Nat → Bool) (i : Nat) (c : Child) :
    (if dead i then (if dead i then c.exit else c).exit else if dead i then c.exit else c) =
      if dead i then c.exit else c := by
  cases dead i <;> rfl

theorem exitAll_exitAll : exitAll dead (exitAll dead m) = exitAll dead m := by
  simp only [exitAll, List.mapIdx_mapIdx, Function.comp_def, exit_twice]

/-- The manager and its children are all there is. -/
theorem machine_eq {m' : Machine} (hs : m.srv = m'.srv) (hc : m.children = m'.children) : m = m' := by
  cases m
  cases m'
  simp_all

theorem exitAll_launch (p : String) : exitAll dead (launch p (exitAll dead m)) = exitAll dead (launch p m) := by
  refine machine_eq ?_ ?_
  · simp only [exitAll_srv, launch, exitAll_length]
  · simp only [launch, exitAll, List.mapIdx_append, List.mapIdx_mapIdx, Function.comp_def, exit_twice,
      List.length_mapIdx]

theorem stopLocked_exitAll : stopLocked (exitAll dead m) = exitAll dead (stopLocked m) := by
  refine machine_eq ?_ (List.ext_getElem? fun i => ?_)
  · rw [exitAll_srv, stopLocked_srv, stopLocked_srv, exitAll_srv]
  · rw [exitAll_getElem?, stopLocked_children, stopLocked_children, exitAll_srv]
    cases m.srv.cancel with
    | none => exact exitAll_getElem?
    | some j =>
      simp only [Option.elim_some, List.getElem?_modify, exitAll_getElem?]
      cases m.children[i]? with
      | none => rfl
      | some c => by_cases hj : j = i <;> cases dead i <;> simp [hj, Child.exit, Child.cancel]

theorem ready_exitAll : ready (exitAll dead m) = exitAll dead (ready m) := by
  unfold ready
  rw [exitAll_srv]
  split
  · exact stopLocked_exitAll
  · rfl

/-- **The time of an exit does not matter to `Start`.** -/
theorem start_exitAll : exitAll dead (start env (exitAll dead m)).1 = exitAll dead (start env m).1 ∧
    (start env (exitAll dead m)).2 = (start env m).2 := by
  rcases start_cases env m with ⟨hp, he⟩ | ⟨hp, hf, he⟩ | ⟨hl, he⟩
  · have he' : start env (exitAll dead m) = (exitAll dead m, some "no model path set") := if_pos hp
    rw [he, he']
    exact ⟨exitAll_exitAll, rfl⟩
  · have he' : start env (exitAll dead m) = (ready (exitAll dead m), some "llama-server binary not found") :=
      (if_neg hp).trans (if_pos hf)
    rw [he, he', ready_exitAll]
    exact ⟨exitAll_exitAll, rfl⟩
  · have he' : start env (exitAll dead m) = (launch (findLLamaServer env) (ready (exitAll dead m)),
        if pollHealth env 30 then none else some "llama-server failed to start within timeout") :=
      (if_neg hl.1).trans (if_neg hl.2)
    rw [he, he', ready_exitAll]
    exact ⟨exitAll_launch _, rfl⟩

/-! ## The error exits -/

/-- Without a path, `Start` leaves everything as it was. -/
theorem clean_of_no_path (h : m.srv.modelPath = "") : Clean env dead m := by
  have he : start env m = (m, some "no model path set") := if_pos h
  unfold Clean
  rw [he]
  exact .inl rfl

/-- Without a binary, a running server has been stopped. -/
theorem clean_iff_of_no_binary (hp : m.srv.modelPath ≠ "") (hf : findLLamaServer env = "") :
    Clean env dead m ↔ (m.srv.isRunning = true → OthersExit dead m) := by
  have he : start env m = (ready m, some "llama-server binary not found") := (if_neg hp).trans (if_pos hf)
  unfold Clean
  rw [he]
  cases hr : m.srv.isRunning with
  | false =>
    have hready : ready m = m := by simp [ready, hr]
    rw [hready]
    exact iff_of_true (.inl rfl) fun h => by cases h
  | true =>
    have hready : ready m = stopLocked m := by simp [ready, hr]
    rw [hready, noneLive_exitAll_stopLocked]
    constructor
    · rintro (heq | ⟨_, hn⟩) _
      · have hflag : false = m.srv.isRunning := congrArg (fun m => m.srv.isRunning) heq
        rw [hr] at hflag
        cases hflag
      · exact hn
    · intro h
      exact .inr ⟨rfl, h rfl⟩

/-- After a launch in vain the flag is set and there is a new child. -/
theorem not_clean_of_launch (h : CanLaunch env m) : ¬Clean env dead m := by
  unfold Clean
  rw [start_launch h]
  rintro (heq | ⟨hr, _⟩)
  · have hlen := congrArg (fun m => m.children.length) heq
    simp [exitAll_length, launch] at hlen
  · cases hr

end Exits

/-- **When a failing `Start` fails cleanly**: it does not launch a child that no poll finds healthy, and when it finds
no binary and the server runs, the children without the context of `s.cancel` exit during the call. -/
theorem clean_iff (env : Env) (dead : Nat → Bool) (m : Machine) :
    ((start env m).2 ≠ none → Clean env dead m) ↔
      (CanLaunch env m → pollHealth env 30 = true) ∧
      (m.srv.modelPath ≠ "" → findLLamaServer env = "" → m.srv.isRunning = true → OthersExit dead m) := by
  rcases start_cases env m with ⟨hp, he⟩ | ⟨hp, hf, he⟩ | ⟨hl, he⟩
  · exact iff_of_true (fun _ => clean_of_no_path hp) ⟨fun hl => absurd hp hl.1, fun hne => absurd hp hne⟩
  · have hnl : ¬CanLaunch env m := fun hl => hl.2 hf
    have herr : (start env m).2 ≠ none := by rw [he]; simp
    rw [imp_iff_right herr, clean_iff_of_no_binary hp hf]
    exact ⟨fun h => ⟨fun hl => absurd hl hnl, fun _ _ => h⟩, fun h => h.2 hp hf⟩
  · have hnot : ¬Clean env dead m := not_clean_of_launch hl
    rw [he]
    cases hpoll : pollHealth env 30 with
    | true => exact iff_of_true (fun hne => absurd rfl hne) ⟨fun _ => rfl, fun _ hf => absurd hf hl.2⟩
    | false => exact iff_of_false (fun h => hnot (h (by simp))) fun h => by cases h.1 hl

/-- The binary is there, but no health poll succeeds. -/
def envSilent : Env := { envUp with health := fun _ => false }

/-- The first `Start` of a server that never becomes healthy leaves its child live, and the flag set. -/
theorem start_unclean : ¬∀ (s : Sys) (ls : List Label) (env : Env) (dead : Nat → Bool),
    exec step (sysInit 8081) ls = some s → (start env s.machine).2 ≠ none → Clean env dead s.machine := by
  intro h
  have hclean := h _ [.set (.setModelPath "/m.gguf")] envSilent (fun _ => false) rfl (by decide)
  exact not_clean_of_launch (by decide) hclean

end LaManchaland.Llmserver
