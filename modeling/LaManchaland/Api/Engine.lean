import LaManchaland.Api.LastRequest

/-!
# The flag `modelLoaded` and the engine

`modelLoaded` is a field of the API server, `isRunning` one of the manager, and the children are processes: an exit
goroutine clears `isRunning` and leaves `modelLoaded` (`loaded_after_crash`), and so does a `Start` that stops the
running server and then finds no binary. The page shows a model as running on either flag. `Kept` is the invariant
that it needs: while the flag is set there is an engine, or a thread is still to clear the flag or to call `Start`.
`KeepsEngine` says of a step that it does not break it.

* `kept_step`: a step keeps `Kept` if and only if it meets `KeepsEngine`.
* `loaded_shows`: along every run whose steps meet it, a quiet controller with `modelLoaded` has an engine; and a run
  with a step that does not meet it leads, when the threads and exit goroutines under way run to their end, to a quiet
  controller with the flag set and no engine.
-/

namespace LaManchaland.Api

open Runs Sections
open Llmserver (Machine LiveAt CanLaunch)
open Startup (Scan ControllerConfig startup)

/-! ## The property -/

/-- A child is alive with an un-cancelled context, and the manager says that it is running. -/
def Engine (m : Machine) : Prop := m.srv.isRunning = true ∧ ∃ i, LiveAt m i

/-- No handler, load goroutine or update of an exit goroutine is pending. -/
def Quiet (s : Sys) : Prop :=
  s.pool.Finished ∧ ∀ c ∈ s.pool.state.llm.children, c.exited = true → c.updated = true

instance (s : Sys) : Decidable (Quiet s) := inferInstanceAs (Decidable (_ ∧ ∀ c ∈ s.pool.state.llm.children, _))

/-- When nothing is pending, a loaded model has an engine. -/
def Shown (s : Sys) : Prop := Quiet s → s.pool.state.api.modelLoaded = true → Engine s.pool.state.llm

/-! ## The condition -/

/-- The sections that clear `modelLoaded`, call `Start`, or start the goroutine that does. -/
def deciding : List Section := [.goLoad, .start, .clearLoaded, .clearModel]

/-- A program that still decides on the flag or on the engine. -/
def Decides (as : List Section) : Prop := ∃ a ∈ as, a ∈ deciding

def Pending (ths : List (Thread Tag Section)) : Prop := ∃ th ∈ ths, Decides th.rest

/-- While `modelLoaded` is set and no other thread is to clear it or to call `Start`: a `Start` launches, or finds no
path and an engine; the flag is set when there is an engine; a child exits when another one is live; and no exit
goroutine runs its update. -/
def KeepsEngine (s : Sys) : Label → Prop
  | .arrive _ => True
  | .advance o i => ∀ th ∈ s.pool.threads[i]?,
    (th.rest.head? = some .start → s.pool.state.api.modelLoaded = true → Pending (s.pool.threads.eraseIdx i) ∨
      CanLaunch o.env s.pool.state.llm ∨ s.pool.state.llm.srv.modelPath = "" ∧ Engine s.pool.state.llm) ∧
    (th.rest.head? = some .setLoaded → Pending (s.pool.threads.eraseIdx i) ∨ Engine s.pool.state.llm)
  | .exit i => s.pool.state.api.modelLoaded = true →
    Pending s.pool.threads ∨ ∃ j, LiveAt s.pool.state.llm j ∧ j ≠ i
  | .update _ => s.pool.state.api.modelLoaded = true → Pending s.pool.threads

instance (m : Machine) (i : Nat) : Decidable (LiveAt m i) :=
  decidable_of_iff ((m.children[i]?).any Llmserver.Child.live = true) (by simp [LiveAt, Option.any_eq_true])

instance (m : Machine) (P : Nat → Prop) [DecidablePred P] : Decidable (∃ i, LiveAt m i ∧ P i) :=
  decidable_of_iff (∃ i, i < m.children.length ∧ LiveAt m i ∧ P i)
    ⟨fun ⟨i, _, h⟩ => ⟨i, h⟩, fun ⟨i, h⟩ => ⟨i, h.1.lt, h⟩⟩

instance (m : Machine) : Decidable (Engine m) :=
  decidable_of_iff (m.srv.isRunning = true ∧ ∃ i, LiveAt m i ∧ True) (by simp [Engine])

instance (ths : List (Thread Tag Section)) : Decidable (Pending ths) :=
  inferInstanceAs (Decidable (∃ th ∈ ths, ∃ a ∈ th.rest, a ∈ deciding))

instance (s : Sys) : ∀ l, Decidable (KeepsEngine s l)
  | .arrive _ => isTrue trivial
  | .advance o i => inferInstanceAs (Decidable (∀ th ∈ s.pool.threads[i]?,
    (th.rest.head? = some .start → s.pool.state.api.modelLoaded = true → Pending (s.pool.threads.eraseIdx i) ∨
      CanLaunch o.env s.pool.state.llm ∨ s.pool.state.llm.srv.modelPath = "" ∧ Engine s.pool.state.llm) ∧
    (th.rest.head? = some .setLoaded → Pending (s.pool.threads.eraseIdx i) ∨ Engine s.pool.state.llm)))
  | .exit i => inferInstanceAs (Decidable (s.pool.state.api.modelLoaded = true →
    Pending s.pool.threads ∨ ∃ j, LiveAt s.pool.state.llm j ∧ j ≠ i))
  | .update _ => inferInstanceAs (Decidable (s.pool.state.api.modelLoaded = true → Pending s.pool.threads))

/-! ## The invariant -/

/-- While the flag is set there is an engine, or a thread is still to decide. -/
def Kept (s : Sys) : Prop :=
  s.pool.state.api.modelLoaded = true → Engine s.pool.state.llm ∨ Pending s.pool.threads

section Pending

variable {ths : List (Thread Tag Section)} {i : Nat} {th : Thread Tag Section}

/-- A thread decides, or another one does. -/
theorem pending_iff (hi : ths[i]? = some th) : Pending ths ↔ Decides th.rest ∨ Pending (ths.eraseIdx i) := by
  constructor
  · rintro ⟨x, hx, hd⟩
    obtain ⟨j, hj⟩ := List.mem_iff_getElem?.mp hx
    by_cases hji : j = i
    · subst hji
      rw [hi] at hj
      cases hj
      exact .inl hd
    · exact .inr ⟨x, List.mem_eraseIdx_iff_getElem?.mpr ⟨j, hji, hj⟩, hd⟩
  · rintro (hd | ⟨x, hx, hd⟩)
    · exact ⟨th, List.mem_of_getElem? hi, hd⟩
    · exact ⟨x, List.mem_of_mem_eraseIdx hx, hd⟩

theorem pending_append {us : List (Thread Tag Section)} : Pending (ths ++ us) ↔ Pending ths ∨ Pending us := by
  simp only [Pending, List.mem_append, or_and_right, exists_or]

theorem decides_cons {a : Section} {as : List Section} : Decides (a :: as) ↔ a ∈ deciding ∨ Decides as := by
  simp [Decides]

/-- The threads after an advance. -/
theorem pending_advance {tag : Tag} {rest : List Section} {new : List Tag} (hi : ths[i]? = some th) :
    Pending (ths.set i ⟨tag, rest⟩ ++ new.map (fresh program)) ↔
      Decides rest ∨ Pending (ths.eraseIdx i) ∨ Pending (new.map (fresh program)) := by
  have hlt := (List.getElem?_eq_some_iff.mp hi).1
  rw [pending_append, pending_iff (List.getElem?_set_self hlt), List.eraseIdx_set_eq, or_assoc]

theorem Finished.not_pending {p : Pool Controller Tag Section} (h : p.Finished) : ¬Pending p.threads := by
  rintro ⟨th, hth, a, ha, _⟩
  rw [h th hth] at ha
  cases ha

end Pending

section Programs

variable {tag : Tag} {rest : List Section}

/-- From its `Start` on, a load goroutine does not decide any more. -/
theorem not_decides_after {a : Section} (ha : a ∈ [.start, .setLoaded]) (h : a :: rest <:+ program tag) :
    ¬Decides rest := by
  have hb := background_of_mem (List.mem_cons_of_mem _ ha) (h.subset List.mem_cons_self)
  have h : a :: rest <:+ loadGoroutine := by rwa [program, hb] at h
  have hrest : rest = [.setLoaded, .broadcast] ∨ rest = [.broadcast] := by
    simp only [List.mem_cons, List.not_mem_nil, or_false] at ha
    rcases ha with rfl | rfl
    · exact .inl (by simpa [loadGoroutine, List.suffix_cons_iff] using h)
    · exact .inr (by simpa [loadGoroutine, List.suffix_cons_iff] using h)
  rcases hrest with rfl | rfl <;> simp [Decides, deciding]

/-- After its `Stop` a handler clears the flag. -/
theorem decides_of_stop (h : .stop :: rest <:+ program tag) : Decides rest := by
  have hmem : .stop ∈ program tag := h.subset List.mem_cons_self
  obtain ⟨id, r, b⟩ := tag
  cases b with
  | true => simp [program, loadGoroutine] at hmem
  | false =>
    have h : .stop :: rest <:+ r.handler := h
    cases r with
    | delete =>
      have hrest : rest = [.clearModel, .broadcast] := by
        simpa [ModelRequest.handler, handleModelDelete, List.suffix_cons_iff] using h
      exact ⟨.clearModel, by simp [hrest], by simp [deciding]⟩
    | post body =>
      cases body with
      | none => simp [ModelRequest.handler] at h
      | some req =>
        -- everything before the last block of the handler is another section
        have hpost := suffix_of_not_mem h (by simp [mem_when])
        split at hpost
        · have hrest : rest = [.clearLoaded, .broadcast] := by simpa [List.suffix_cons_iff] using hpost
          exact ⟨.clearLoaded, by simp [hrest], by simp [deciding]⟩
        · simp at hpost

end Programs

/-! ## What a step keeps -/

section Steps

variable {s t : Sys} {o : Outside} {m : Machine}

theorem engine_congr {m' : Machine} (h : SameProcess m m') : Engine m' ↔ Engine m := by
  simp only [Engine, LiveAt, h.isRunning, h.children]

/-- **When `Start` leaves an engine**: it launches, or it finds no path and an engine. -/
theorem engine_start : Engine (Llmserver.start o.env m).1 ↔
    CanLaunch o.env m ∨ m.srv.modelPath = "" ∧ Engine m := by
  rcases Llmserver.start_cases o.env m with ⟨hp, he⟩ | ⟨hp, hf, he⟩ | ⟨hl, he⟩
  · rw [he]
    simp [CanLaunch, hp]
  · rw [he]
    simp [Engine, CanLaunch, hp, hf]
  · rw [he]
    refine iff_of_true ⟨rfl, (Llmserver.ready m).children.length, ?_⟩ (.inl hl)
    exact Llmserver.liveAt_launch.mpr (.inr rfl)

theorem not_engine_update {m' : Machine} {i : Nat} (h : Llmserver.update i m = some m') : ¬Engine m' := by
  rintro ⟨hr, _⟩
  rw [Llmserver.update_srv h] at hr
  cases hr

section Advance

variable {i : Nat} {tag : Tag} {a : Section} {rest : List Section}

/-- A section that does not decide starts no goroutine and clears no flag. -/
theorem undeciding {t : Tag} (ha : a ∉ deciding) : a ≠ .start ∧ a ∉ clearing ∧ spawns t a = [] := by
  cases a with
  | goLoad | start | clearLoaded | clearModel => exact absurd (by simp [deciding]) ha
  | _ => exact ⟨by simp, by simp [clearing], rfl⟩

/-- After such a section as much is pending as before. -/
theorem pending_undeciding (hi : s.pool.threads[i]? = some ⟨tag, a :: rest⟩) (ha : a ∉ deciding) :
    Pending (s.pool.threads.set i ⟨tag, if (a.run o s.pool.state).2 then rest else []⟩ ++
      (spawns tag a).map (fresh program)) ↔ Pending s.pool.threads := by
  obtain ⟨hstart, _, hspawn⟩ := undeciding (t := tag) ha
  have hnone : ¬Pending (([] : List Tag).map (fresh program)) := by simp [Pending]
  rw [Section.run_goes_on hstart, if_pos rfl, pending_advance hi, hspawn, pending_iff hi, decides_cons, or_iff_right ha,
    or_iff_left hnone]

theorem keepsEngine_advance (hi : s.pool.threads[i]? = some ⟨tag, a :: rest⟩) : KeepsEngine s (.advance o i) ↔
    (a = .start → s.pool.state.api.modelLoaded = true → Pending (s.pool.threads.eraseIdx i) ∨
      CanLaunch o.env s.pool.state.llm ∨ s.pool.state.llm.srv.modelPath = "" ∧ Engine s.pool.state.llm) ∧
    (a = .setLoaded → Pending (s.pool.threads.eraseIdx i) ∨ Engine s.pool.state.llm) := by
  simp [KeepsEngine, hi]

/-- A section of one thread keeps `Kept` exactly when the condition holds. -/
theorem kept_section (hw : WellTraced s) (hk : Kept s) (hi : s.pool.threads[i]? = some ⟨tag, a :: rest⟩)
    (hstate : t.pool.state = (a.run o s.pool.state).1)
    (hts : t.pool.threads = s.pool.threads.set i ⟨tag, if (a.run o s.pool.state).2 then rest else []⟩ ++
      (spawns tag a).map (fresh program)) :
    Kept t ↔ KeepsEngine s (.advance o i) := by
  have hsuf : a :: rest <:+ program tag := hw.traced.suffix _ (List.mem_of_getElem? hi)
  rw [keepsEngine_advance hi, Kept, hts, hstate]
  cases a with
  | start =>
    have hrest : ¬Decides (if (Section.run o .start s.pool.state).2 then rest else []) := by
      split
      · exact not_decides_after (by simp) hsuf
      · simp [Decides]
    have hengine : Engine (Section.run o .start s.pool.state).1.llm ↔ _ := engine_start
    have hloaded : (Section.run o .start s.pool.state).1.api.modelLoaded = s.pool.state.api.modelLoaded := rfl
    have hspawn : ¬Pending ((spawns tag .start).map (fresh program)) := by simp [spawns, Pending]
    rw [pending_advance hi, hengine, hloaded]
    simp only [hrest, hspawn, false_or, or_false, forall_const, reduceCtorEq, false_implies, and_true]
    exact imp_congr_right fun _ => or_comm
  | setLoaded =>
    have hdec : ¬Decides (.setLoaded :: rest) := by
      rw [decides_cons, or_iff_right (by simp [deciding])]
      exact not_decides_after (by simp) hsuf
    have hllm : (Section.run o .setLoaded s.pool.state).1.llm = s.pool.state.llm := rfl
    have hloaded : (Section.run o .setLoaded s.pool.state).1.api.modelLoaded = true := rfl
    rw [pending_undeciding hi (by simp [deciding]), pending_iff hi, or_iff_right hdec, hllm, hloaded]
    simp only [forall_const, reduceCtorEq, false_implies, true_and]
    exact or_comm
  | stop =>
    have hdec : Decides (.stop :: rest) := decides_cons.mpr (.inr (decides_of_stop hsuf))
    rw [pending_undeciding hi (by simp [deciding])]
    exact iff_of_true (fun _ => .inr ((pending_iff hi).mpr (.inl hdec))) (by simp)
  | clearLoaded => exact iff_of_true (fun hl => absurd hl Bool.false_ne_true) (by simp)
  | clearModel => exact iff_of_true (fun hl => absurd hl Bool.false_ne_true) (by simp)
  | goLoad =>
    have hspawn : Pending ((spawns tag .goLoad).map (fresh program)) :=
      ⟨_, List.mem_singleton.mpr rfl, .start, by simp [fresh, program, loadGoroutine], by simp [deciding]⟩
    rw [pending_advance hi]
    exact iff_of_true (fun _ => .inr (.inr (.inr hspawn))) (by simp)
  | setPaths | set | copyWorkers | broadcast =>
    -- neither the flag nor the engine changes, and the section did not decide
    rw [pending_undeciding hi (by simp [deciding]), run_modelLoaded (by simp) (by simp [clearing]),
      engine_congr (run_process (by simp) (by simp))]
    exact iff_of_true hk (by simp)

end Advance

/-- A child that exits keeps the engine exactly when another one is live. -/
theorem kept_exit (hk : Kept s) {i : Nat} (hm : Llmserver.exit i s.pool.state.llm = some m) :
    Kept (s.withLlm m) ↔ KeepsEngine s (.exit i) := by
  refine forall_congr' fun hl => ?_
  have hengine : Engine m ↔ s.pool.state.llm.srv.isRunning = true ∧ ∃ j, LiveAt s.pool.state.llm j ∧ j ≠ i := by
    simp only [Engine, Llmserver.exit_srv hm, Llmserver.liveAt_exit hm]
  show Engine m ∨ Pending s.pool.threads ↔ _
  rw [hengine]
  constructor
  · rintro (⟨_, hj⟩ | hp)
    · exact .inr hj
    · exact .inl hp
  · rintro (hp | hj)
    · exact .inr hp
    · exact (hk hl).imp_left fun he => ⟨he.1, hj⟩

/-- The update of an exit goroutine ends the engine. -/
theorem kept_update {i : Nat} (hm : Llmserver.update i s.pool.state.llm = some m) :
    Kept (s.withLlm m) ↔ KeepsEngine s (.update i) := by
  refine forall_congr' fun _ => ?_
  show Engine m ∨ Pending s.pool.threads ↔ Pending s.pool.threads
  exact or_iff_right (not_engine_update hm)

/-- A request that arrives takes nothing away. -/
theorem kept_arrive (hk : Kept s) (r : ModelRequest) :
    Kept ⟨Sections.arrive program ⟨s.requests.length, r, false⟩ s.pool, s.requests ++ [r]⟩ :=
  fun hl => (hk hl).imp_right fun hp => pending_append.mpr (.inl hp)

/-- **What keeps the engine**: a step keeps `Kept` exactly when it meets the condition. -/
theorem kept_step {l : Label} (hw : WellTraced s) (hk : Kept s) (hs : step s l = some t) :
    Kept t ↔ KeepsEngine s l := by
  rcases step_cases hs with ⟨r, rfl, rfl⟩ | ⟨o, i, rfl, hp, _⟩ | ⟨i, m, ⟨rfl, hm⟩ | ⟨rfl, hm⟩, rfl⟩
  · exact iff_of_true (kept_arrive hk r) trivial
  · obtain ⟨tag, a, rest, hi, hstate, hts, _⟩ := advance_some hp
    exact kept_section hw hk hi hstate hts
  · exact kept_exit hk hm
  · exact kept_update hm

/-- In a quiet state nothing is still to decide. -/
theorem Kept.shown (hk : Kept s) : Shown s :=
  fun hq hl => (hk hl).resolve_right (Finished.not_pending hq.1)

end Steps

/-! ## What is lost stays lost -/

section Lost

variable {s t : Sys}

/-- The steps of the threads and of the exit goroutines. -/
def Label.own : Label → Bool
  | .advance .. | .update _ => true
  | .arrive _ | .exit _ => false

/-- The sections and the updates of exit goroutines that are still to run. -/
def Sys.left (s : Sys) : Nat :=
  (s.pool.threads.flatMap Thread.rest).length + s.pool.state.llm.children.countP fun c => c.exited && !c.updated

/-- One thread is shorter. -/
theorem left_set {ths : List (Thread Tag Section)} {i : Nat} {th x : Thread Tag Section} (hi : ths[i]? = some th)
    (hlt : x.rest.length < th.rest.length) :
    ((ths.set i x).flatMap Thread.rest).length < (ths.flatMap Thread.rest).length := by
  induction ths generalizing i with
  | nil => cases hi
  | cons y ths ih =>
    cases i with
    | zero =>
      cases hi
      simp only [List.set_cons_zero, List.flatMap_cons, List.length_append]
      omega
    | succ i =>
      have := ih hi
      simp only [List.set_cons_succ, List.flatMap_cons, List.length_append]
      omega

theorem not_kept_iff : ¬Kept s ↔
    s.pool.state.api.modelLoaded = true ∧ ¬Engine s.pool.state.llm ∧ ¬Pending s.pool.threads := by
  simp only [Kept, Classical.not_imp, not_or]

/-- A thread that has sections left runs one; where none of them decides, nothing is won back. -/
theorem lost_advance (hw : WellTraced s) (hk : ¬Kept s) (o : Outside) (hf : ¬s.pool.Finished) :
    ∃ i t, step s (.advance o i) = some t ∧ ¬Kept t ∧ t.left < s.left := by
  obtain ⟨hl, he, hp⟩ := not_kept_iff.mp hk
  obtain ⟨⟨tag, _ | ⟨a, rest⟩⟩, hth, hne⟩ : ∃ th ∈ s.pool.threads, th.rest ≠ [] := by
    simpa only [Pool.Finished, not_forall, exists_prop] using hf
  · exact absurd rfl hne
  · obtain ⟨i, hi⟩ := List.mem_iff_getElem?.mp hth
    have hdec : ¬Decides (a :: rest) := fun hd => hp ⟨_, hth, hd⟩
    rw [decides_cons, not_or] at hdec
    obtain ⟨ha, hrest⟩ := hdec
    obtain ⟨hstart, hclear, hspawn⟩ := undeciding (t := tag) ha
    have hstop : a ≠ .stop := by
      rintro rfl
      exact hrest (decides_of_stop (hw.traced.suffix _ hth))
    have hsame := run_process (o := o) (c := s.pool.state) hstart hstop
    have hgo := Section.run_goes_on (o := o) hstart s.pool.state
    refine ⟨i, ⟨⟨(a.run o s.pool.state).1, s.pool.threads.set i ⟨tag, if (a.run o s.pool.state).2 then rest else []⟩ ++
      (spawns tag a).map (fresh program), ⟨i, tag, a⟩ :: s.pool.log⟩, s.requests⟩,
      by simp only [step, advance, hi, Option.map_some], not_kept_iff.mpr ⟨?_, ?_, ?_⟩, ?_⟩
    · by_cases hset : a = .setLoaded
      · subst hset
        rfl
      · exact (run_modelLoaded hset hclear).trans hl
    · exact fun h => he ((engine_congr hsame).mp h)
    · exact fun h => hp ((pending_undeciding hi ha).mp h)
    · have hlt := left_set (x := ⟨tag, rest⟩) hi (Nat.lt_succ_self rest.length)
      simp only [Sys.left, hsame.children, hgo, hspawn, if_true, List.map_nil, List.append_nil]
      omega

/-- An exit goroutine that waits runs its update, which leaves `modelLoaded`. -/
theorem lost_update (hk : ¬Kept s) (hf : s.pool.Finished) (hq : ¬Quiet s) :
    ∃ i t, step s (.update i) = some t ∧ ¬Kept t ∧ t.left < s.left := by
  obtain ⟨hl, _, hp⟩ := not_kept_iff.mp hk
  obtain ⟨c, hc, hexit, hupd⟩ : ∃ c ∈ s.pool.state.llm.children, c.exited = true ∧ c.updated = false := by
    simpa [Quiet, hf] using hq
  obtain ⟨i, hi⟩ := List.mem_iff_getElem?.mp hc
  obtain ⟨hlt, hget⟩ := List.getElem?_eq_some_iff.mp hi
  obtain ⟨m, hm⟩ : ∃ m, Llmserver.update i s.pool.state.llm = some m := by
    simp [Llmserver.update, hi, hexit, hupd]
  have hchildren : m.children = s.pool.state.llm.children.set i { c with updated := true } := by
    obtain ⟨c', hc', _, _, rfl⟩ := Llmserver.update_some hm
    rw [hi] at hc'
    cases hc'
    rfl
  refine ⟨i, s.withLlm m, by simp only [step, hm, Option.map_some], not_kept_iff.mpr ⟨hl, not_engine_update hm, hp⟩, ?_⟩
  have hpos : 0 < s.pool.state.llm.children.countP fun c => c.exited && !c.updated :=
    List.countP_pos_iff.mpr ⟨c, hc, by simp [hexit, hupd]⟩
  have hcount : (s.withLlm m).pool.state.llm.children.countP (fun c => c.exited && !c.updated) =
      s.pool.state.llm.children.countP (fun c => c.exited && !c.updated) - 1 := by
    show m.children.countP _ = _
    rw [hchildren, List.countP_set hlt, hget]
    simp [hexit, hupd]
  have hths : (s.withLlm m).pool.threads = s.pool.threads := rfl
  rw [Sys.left, Sys.left, hcount, hths]
  omega

/-- What is lost stays lost while the controller quiets down. -/
theorem lost_step (h : WellTraced s ∧ ¬Kept s) (hq : ¬Quiet s) :
    ∃ l t, l.own = true ∧ step s l = some t ∧ (WellTraced t ∧ ¬Kept t) ∧ t.left < s.left := by
  by_cases hf : s.pool.Finished
  · obtain ⟨i, t, ht, hk, hlt⟩ := lost_update h.2 hf hq
    exact ⟨.update i, t, rfl, ht, ⟨wellTraced_step h.1 ht, hk⟩, hlt⟩
  · obtain ⟨i, t, ht, hk, hlt⟩ := lost_advance h.1 h.2 outsideUp hf
    exact ⟨.advance outsideUp i, t, rfl, ht, ⟨wellTraced_step h.1 ht, hk⟩, hlt⟩

/-- Without the invariant the threads and exit goroutines run to a quiet state in which the flag is set and there is
no engine. -/
theorem lost_shows (hw : WellTraced s) (hk : ¬Kept s) :
    ∃ ls t, (∀ l ∈ ls, l.own = true) ∧ exec step s ls = some t ∧ Quiet t ∧ ¬Shown t := by
  obtain ⟨ls, t, hls, ht, ⟨_, hk⟩, hq⟩ := exec_descends Sys.left (fun _ => lost_step) ⟨hw, hk⟩
  obtain ⟨hl, he, _⟩ := not_kept_iff.mp hk
  exact ⟨ls, t, hls, ht, hq, fun hs => he (hs hq hl)⟩

end Lost

/-! ## Runs from the startup -/

section Runs

variable (scan : Scan) (now : Nat) (cfg : ControllerConfig)

theorem kept_startup : Kept (Sys.init (startup scan now cfg)) := by
  intro hl
  have hl : (startup scan now cfg).api.modelLoaded = true := hl
  rw [Startup.startup_modelLoaded] at hl
  cases hl

/-- The invariant holds along a run exactly when every step meets the condition. -/
theorem kept_iff (ls : List Label) : Always step Kept (Sys.init (startup scan now cfg)) ls ↔
    Meets step KeepsEngine (Sys.init (startup scan now cfg)) ls :=
  always_iff_meets (fun _ _ _ => wellTraced_step) (fun _ _ _ => kept_step) (wellTraced_init _)
    (kept_startup scan now cfg) ls

/-- **A loaded model has an engine** in every quiet state of every run whose steps keep it, and only there: any other
run has a beginning from which the controller quiets down with the flag set and no engine. -/
theorem loaded_shows (ls : List Label) :
    (Meets step KeepsEngine (Sys.init (startup scan now cfg)) ls →
      Always step Shown (Sys.init (startup scan now cfg)) ls) ∧
    (¬Meets step KeepsEngine (Sys.init (startup scan now cfg)) ls →
      ∃ pre more t, pre <+: ls ∧ (∀ l ∈ more, l.own = true) ∧
        exec step (Sys.init (startup scan now cfg)) (pre ++ more) = some t ∧ Quiet t ∧ ¬Shown t) := by
  rw [← kept_iff]
  refine ⟨fun h => h.mono fun _ => Kept.shown, fun h => ?_⟩
  obtain ⟨pre, s, hpre, hs, hk⟩ := exists_of_not_always h
  obtain ⟨more, t, hmore, ht, hq, hn⟩ := lost_shows (wellTraced_exec hs) hk
  exact ⟨pre, more, t, hpre, hmore, exec_trans hs ht, hq, hn⟩

end Runs

/-! ## A crash -/

/-- A load runs, then an unload, and the child exits. -/
def unloadRun : List Label := loadHandled ++ loadRuns ++ unloadHandled ++ [.exit 0, .update 0]

theorem loaded_shows_unloaded :
    Always step Shown (Sys.init (startup (fun _ _ _ => none) 0 Startup.oneWorker)) unloadRun :=
  (loaded_shows (fun _ _ _ => none) 0 Startup.oneWorker unloadRun).1 (by decide)

/-- The child of a loaded model crashes: `modelLoaded` stays set. -/
theorem loaded_after_crash : ¬∀ (scan : Scan) (now : Nat) (cfg : ControllerConfig) (ls : List Label),
    Always step Shown (Sys.init (startup scan now cfg)) ls := by
  intro h
  have hlast := (h (fun _ _ _ => none) 0 Startup.oneWorker (loadHandled ++ loadRuns ++ [.exit 0, .update 0])).last rfl
  have hrun : false = true := (hlast (by decide) rfl).1
  cases hrun

end LaManchaland.Api
