import LaManchaland.Ui.Animation
import LaManchaland.Wire.Metrics

/-!
# The calls of fetchInitialData

A call of `fetchInitialData` waits for its three responses together, and then for the body of each response that is ok,
one after the other. The workers are shown before the status and the status before the metrics, so an error of
`updateWorkers` ends the call before its metrics. Calls may overlap, with each other and with everything else that
happens to the page.

`metrics_shown`: after every run the panel has the load and the memory of the last metrics that a call has got to, and
the first GPU of the last of these that had one. `Reached` is what must have happened before a call waits for something,
and a call gets from its workers to its metrics exactly when the workers come through.
-/

namespace LaManchaland.Wire.Fetch

open Runs
open Float64 (IsDouble)
open Monitor (Host Findings getMetrics)
open Ui (ModelMessage updateModelStatus)
open Ui.Animation (Page Passes updateWorkers updateWorkers_returns)

/-! ## The calls -/

/-- What a call waits for: its responses, or the body of one, with the later responses that are ok. -/
inductive Await where
  | responses
  | workers (modelOk metricsOk : Bool)
  | model (metricsOk : Bool)
  | metrics
  | over
  deriving DecidableEq

/-- The page with its panel, and the calls in the order in which they were made. -/
structure Screen where
  page : Page
  panel : Panel
  calls : List Await

/-- The page as it is served. -/
def Screen.init : Screen := ⟨Page.init, servedPanel, []⟩

/-- What happens: a call is made, its responses come, a body is read, or a request or a body fails; and what else
happens to the page. The metrics are those of a call of `GetMetrics`. -/
inductive Event where
  | fetch
  | responded (i : Nat) (workersOk modelOk metricsOk : Bool)
  | workersRead (i : Nat) (workers : List WorkerInfo)
  | modelRead (i : Nat) (model : ModelMessage)
  | metricsRead (i : Nat) (found : Findings)
  | rejected (i : Nat)
  | page (e : Ui.Animation.Event)

/-- The call that an event is about. -/
def Event.call : Event → Option Nat
  | .fetch | .page _ => none
  | .responded i _ _ _ | .workersRead i _ | .modelRead i _ | .metricsRead i _ | .rejected i => some i

def afterModel (metricsOk : Bool) : Await := if metricsOk then .metrics else .over

def afterWorkers (modelOk metricsOk : Bool) : Await := if modelOk then .model metricsOk else afterModel metricsOk

def afterResponses (workersOk modelOk metricsOk : Bool) : Await :=
  if workersOk then .workers modelOk metricsOk else afterWorkers modelOk metricsOk

/-- The call waits for something else. -/
def Screen.waits (s : Screen) (i : Nat) (a : Await) : Screen := { s with calls := s.calls.set i a }

section Step

variable (fmt : JsFormat) (host : Host)

/-- `fetchInitialData` from where it waits to its next wait; `none` when it does not wait for this. -/
def resume (s : Screen) (i : Nat) : Await → Event → Option Screen
  | .responses, .responded _ workersOk modelOk metricsOk =>
    some (s.waits i (afterResponses workersOk modelOk metricsOk))
  | .workers modelOk metricsOk, .workersRead _ workers =>
    let shown := updateWorkers workers s.page
    -- an error goes to the `catch`
    some ({ s with page := shown.1 }.waits i (if shown.2 then afterWorkers modelOk metricsOk else .over))
  | .model metricsOk, .modelRead _ model =>
    some ({ s with page := { s.page with view := updateModelStatus model s.page.view } }.waits i (afterModel metricsOk))
  | .metrics, .metricsRead _ found =>
    some ({ s with panel := receiveMetrics fmt s.panel (metricsBody (getMetrics host found)) }.waits i .over)
  | a, .rejected _ => if a = .over then none else some (s.waits i .over)
  | _, _ => none

def step (s : Screen) (e : Event) : Option Screen :=
  match e with
  | .fetch => some { s with calls := s.calls ++ [.responses] }
  | .page e => (Ui.Animation.step s.page e).map fun page => { s with page := page }
  | e => e.call.bind fun i => s.calls[i]?.bind fun a => resume fmt host s i a e

end Step

/-! ## What a step can do -/

section Steps

variable {fmt : JsFormat} {host : Host} {s s' : Screen}

/-- How a call goes on. -/
inductive Resumes (fmt : JsFormat) (host : Host) (s : Screen) (i : Nat) : Await → Event → Screen → Prop
  | responded (workersOk modelOk metricsOk : Bool) :
      Resumes fmt host s i .responses (.responded i workersOk modelOk metricsOk)
        (s.waits i (afterResponses workersOk modelOk metricsOk))
  | shown (modelOk metricsOk : Bool) (workers : List WorkerInfo) (h : Passes workers s.page) :
      Resumes fmt host s i (.workers modelOk metricsOk) (.workersRead i workers)
        ({ s with page := (updateWorkers workers s.page).1 }.waits i (afterWorkers modelOk metricsOk))
  | throws (modelOk metricsOk : Bool) (workers : List WorkerInfo) (h : ¬Passes workers s.page) :
      Resumes fmt host s i (.workers modelOk metricsOk) (.workersRead i workers)
        ({ s with page := (updateWorkers workers s.page).1 }.waits i .over)
  | model (metricsOk : Bool) (model : ModelMessage) :
      Resumes fmt host s i (.model metricsOk) (.modelRead i model)
        ({ s with page := { s.page with view := updateModelStatus model s.page.view } }.waits i (afterModel metricsOk))
  | metrics (found : Findings) :
      Resumes fmt host s i .metrics (.metricsRead i found)
        ({ s with panel := receiveMetrics fmt s.panel (metricsBody (getMetrics host found)) }.waits i .over)
  | rejected (a : Await) (h : a ≠ .over) : Resumes fmt host s i a (.rejected i) (s.waits i .over)

theorem resume_spec {i : Nat} {a : Await} {e : Event} (he : e.call = some i) (h : resume fmt host s i a e = some s') :
    Resumes fmt host s i a e s' := by
  cases e with
  | fetch => cases he
  | page => cases he
  | responded j workersOk modelOk metricsOk =>
    cases he
    cases a <;> cases h
    exact .responded workersOk modelOk metricsOk
  | workersRead j workers =>
    cases he
    cases a with
    | workers modelOk metricsOk =>
      rw [← Option.some.inj h]
      by_cases hpass : Passes workers s.page
      · rw [if_pos ((updateWorkers_returns workers s.page).mpr hpass)]
        exact .shown modelOk metricsOk workers hpass
      · rw [if_neg fun hreturns => hpass ((updateWorkers_returns workers s.page).mp hreturns)]
        exact .throws modelOk metricsOk workers hpass
    | _ => cases h
  | modelRead j model =>
    cases he
    cases a <;> cases h
    exact .model _ model
  | metricsRead j found =>
    cases he
    cases a <;> cases h
    exact .metrics found
  | rejected j =>
    cases he
    have h : (if a = .over then none else some (s.waits i .over)) = some s' := by cases a <;> exact h
    obtain ⟨ha, h⟩ := Option.ite_none_left_eq_some.mp h
    rw [← Option.some.inj h]
    exact .rejected a ha

/-- A step of a call. -/
theorem step_call {e : Event} {i : Nat} (he : e.call = some i) (h : step fmt host s e = some s') :
    ∃ a, s.calls[i]? = some a ∧ Resumes fmt host s i a e s' := by
  have hstep : step fmt host s e = (s.calls[i]?.bind fun a => resume fmt host s i a e) := by
    cases e <;> cases he <;> rfl
  rw [hstep] at h
  obtain ⟨a, ha, h⟩ := Option.bind_eq_some_iff.mp h
  exact ⟨a, ha, resume_spec he h⟩

/-- What a step does. -/
inductive StepSpec (fmt : JsFormat) (host : Host) (s : Screen) : Event → Screen → Prop
  | fetch : StepSpec fmt host s .fetch { s with calls := s.calls ++ [.responses] }
  | page (e : Ui.Animation.Event) (page : Page) (h : Ui.Animation.step s.page e = some page) :
      StepSpec fmt host s (.page e) { s with page := page }
  | call (i : Nat) (a : Await) (e : Event) (s' : Screen) (hi : s.calls[i]? = some a)
      (h : Resumes fmt host s i a e s') : StepSpec fmt host s e s'

theorem step_spec {e : Event} (h : step fmt host s e = some s') : StepSpec fmt host s e s' := by
  cases he : e.call with
  | none =>
    cases e with
    | fetch =>
      cases h
      exact .fetch
    | page e =>
      obtain ⟨page, hpage, rfl⟩ := Option.map_eq_some_iff.mp h
      exact .page e page hpage
    | _ => cases he
  | some i =>
    obtain ⟨a, hi, hr⟩ := step_call he h
    exact .call i a e s' hi hr

/-- A step of a call changes what this call waits for. -/
theorem Resumes.calls {i : Nat} {a : Await} {e : Event} (h : Resumes fmt host s i a e s') :
    a ≠ .over ∧ ∃ next, s'.calls = s.calls.set i next := by
  cases h with
  | rejected a ha => exact ⟨ha, _, rfl⟩
  | _ => exact ⟨by simp, _, rfl⟩

/-- A call that is over stays over. -/
theorem step_over {e : Event} {j : Nat} (hover : s.calls[j]? = some .over) (h : step fmt host s e = some s') :
    s'.calls[j]? = some .over := by
  cases step_spec h with
  | fetch => exact (List.getElem?_append_left (List.getElem?_eq_some_iff.mp hover).1).trans hover
  | page e page hpage => exact hover
  | call i a e s' ha hr =>
    obtain ⟨hne, next, hcalls⟩ := hr.calls
    have hij : i ≠ j := by
      rintro rfl
      exact hne (Option.some.inj (ha.symm.trans hover))
    rw [hcalls, List.getElem?_set_ne hij, hover]

/-- A call that is over reads nothing. -/
theorem exec_over {es : List Event} {j : Nat} {t : Screen} (hover : s.calls[j]? = some .over)
    (h : exec (step fmt host) s es = some t) (found : Findings) : .metricsRead j found ∉ es := by
  induction es generalizing s with
  | nil => exact List.not_mem_nil
  | cons e es ih =>
    obtain ⟨u, hu, h⟩ := exec_cons_some h
    rintro (_ | ⟨_, hmem⟩)
    · obtain ⟨a, ha, hr⟩ := step_call rfl hu
      cases hr
      cases ha.symm.trans hover
    · exact ih (step_over hover hu) h hmem

end Steps

/-! ## How calls get to their metrics -/

/-- The responses of the call have come. -/
def Responded (steps : List (Screen × Event)) (i : Nat) (workersOk modelOk metricsOk : Bool) : Prop :=
  ∃ s, (s, .responded i workersOk modelOk metricsOk) ∈ steps

/-- The workers of the call have come through. -/
def WorkersShown (steps : List (Screen × Event)) (i : Nat) : Prop :=
  ∃ s workers, (s, .workersRead i workers) ∈ steps ∧ Passes workers s.page

/-- The status of the call has been shown. -/
def StatusShown (steps : List (Screen × Event)) (i : Nat) : Prop := ∃ s model, (s, .modelRead i model) ∈ steps

/-- What must have happened to a call that waits for `a`. -/
def Reached (steps : List (Screen × Event)) (i : Nat) : Await → Prop
  | .responses | .over => True
  | .workers modelOk metricsOk => Responded steps i true modelOk metricsOk
  | .model metricsOk =>
    ∃ workersOk, Responded steps i workersOk true metricsOk ∧ (workersOk = true → WorkersShown steps i)
  | .metrics => ∃ workersOk modelOk, Responded steps i workersOk modelOk true ∧
      (workersOk = true → WorkersShown steps i) ∧ (modelOk = true → StatusShown steps i)

section Reached

variable {fmt : JsFormat} {host : Host} {s s' : Screen} {steps steps' : List (Screen × Event)} {i : Nat}

theorem Responded.mono (hsub : steps ⊆ steps') {workersOk modelOk metricsOk : Bool}
    (h : Responded steps i workersOk modelOk metricsOk) : Responded steps' i workersOk modelOk metricsOk :=
  h.imp fun _ hmem => hsub hmem

theorem WorkersShown.mono (hsub : steps ⊆ steps') (h : WorkersShown steps i) : WorkersShown steps' i := by
  obtain ⟨s, workers, hmem, hpass⟩ := h
  exact ⟨s, workers, hsub hmem, hpass⟩

theorem StatusShown.mono (hsub : steps ⊆ steps') (h : StatusShown steps i) : StatusShown steps' i := by
  obtain ⟨s, model, hmem⟩ := h
  exact ⟨s, model, hsub hmem⟩

theorem Reached.mono (hsub : steps ⊆ steps') : ∀ {a : Await}, Reached steps i a → Reached steps' i a
  | .responses, _ => trivial
  | .over, _ => trivial
  | .workers _ _, h => Responded.mono hsub h
  | .model _, ⟨workersOk, hresp, hworkers⟩ => ⟨workersOk, hresp.mono hsub, fun h => (hworkers h).mono hsub⟩
  | .metrics, ⟨workersOk, modelOk, hresp, hworkers, hstatus⟩ =>
    ⟨workersOk, modelOk, hresp.mono hsub, fun h => (hworkers h).mono hsub, fun h => (hstatus h).mono hsub⟩

/-- What follows the status. -/
theorem reached_afterModel {workersOk modelOk metricsOk : Bool} (hresp : Responded steps i workersOk modelOk metricsOk)
    (hworkers : workersOk = true → WorkersShown steps i) (hstatus : modelOk = true → StatusShown steps i) :
    Reached steps i (afterModel metricsOk) := by
  cases metricsOk with
  | true => exact ⟨workersOk, modelOk, hresp, hworkers, hstatus⟩
  | false => trivial

/-- What follows the workers. -/
theorem reached_afterWorkers {workersOk modelOk metricsOk : Bool}
    (hresp : Responded steps i workersOk modelOk metricsOk) (hworkers : workersOk = true → WorkersShown steps i) :
    Reached steps i (afterWorkers modelOk metricsOk) := by
  cases modelOk with
  | true => exact ⟨workersOk, hresp, hworkers⟩
  | false => exact reached_afterModel hresp hworkers fun h => by cases h

/-- **A step of a call** takes it to what it has reached. -/
theorem Resumes.reached {a next : Await} {e : Event} (h : Resumes fmt host s i a e s') (hi : s.calls[i]? = some a)
    (hnext : s'.calls[i]? = some next) (ha : Reached steps i a) : Reached (steps ++ [(s, e)]) i next := by
  have hset : ∀ {b}, (s.calls.set i b)[i]? = some next → next = b := by
    intro b hb
    rw [List.getElem?_set_self (List.getElem?_eq_some_iff.mp hi).1] at hb
    exact (Option.some.inj hb).symm
  have hlast : (s, e) ∈ steps ++ [(s, e)] := List.mem_append_right _ (List.mem_singleton_self _)
  have ha := ha.mono (List.subset_append_left steps [(s, e)])
  cases h with
  | responded workersOk modelOk metricsOk =>
    rw [hset hnext]
    cases workersOk with
    | true => exact ⟨s, hlast⟩
    | false => exact reached_afterWorkers ⟨s, hlast⟩ fun h => by cases h
  | shown modelOk metricsOk workers hpass =>
    rw [hset hnext]
    exact reached_afterWorkers ha fun _ => ⟨s, workers, hlast, hpass⟩
  | throws modelOk metricsOk workers hpass =>
    rw [hset hnext]
    trivial
  | model metricsOk model =>
    obtain ⟨workersOk, hresp, hworkers⟩ := ha
    rw [hset hnext]
    exact reached_afterModel hresp hworkers fun _ => ⟨s, model, hlast⟩
  | metrics found =>
    rw [hset hnext]
    trivial
  | rejected a hne =>
    rw [hset hnext]
    trivial

/-- Every call is where it has got. -/
theorem reached_step {e : Event} (hs : ∀ i a, s.calls[i]? = some a → Reached steps i a)
    (h : step fmt host s e = some s') (j : Nat) (a : Await) (ha : s'.calls[j]? = some a) :
    Reached (steps ++ [(s, e)]) j a := by
  have hmono : ∀ {b}, Reached steps j b → Reached (steps ++ [(s, e)]) j b :=
    Reached.mono (List.subset_append_left _ _)
  cases step_spec h with
  | fetch =>
    by_cases hlt : j < s.calls.length
    · rw [List.getElem?_append_left hlt] at ha
      exact hmono (hs j a ha)
    · rw [List.getElem?_append_right (not_lt.mp hlt)] at ha
      rw [List.mem_singleton.mp (List.mem_of_getElem? ha)]
      trivial
  | page e page hpage => exact hmono (hs j a ha)
  | call i b e s' hb hr =>
    by_cases hij : i = j
    · subst hij
      exact hr.reached hb ha (hs i b hb)
    · obtain ⟨-, next, hcalls⟩ := hr.calls
      rw [hcalls, List.getElem?_set_ne hij] at ha
      exact hmono (hs j a ha)

/-- **A call that has read its metrics** has got to them. -/
theorem reached_exec {es : List Event} (h : exec (step fmt host) Screen.init es = some s) :
    (∀ i a, s.calls[i]? = some a → Reached (trace (step fmt host) Screen.init es) i a) ∧
      ∀ i found, .metricsRead i found ∈ es → Reached (trace (step fmt host) Screen.init es) i .metrics := by
  refine exec_history (I := fun es s =>
    (∀ i a, s.calls[i]? = some a → Reached (trace (step fmt host) Screen.init es) i a) ∧
      ∀ i found, .metricsRead i found ∈ es → Reached (trace (step fmt host) Screen.init es) i .metrics) ?_ ?_ h
  · rintro es s e t hs ⟨hcalls, hread⟩ ht
    have hmono : ∀ {i}, Reached (trace (step fmt host) Screen.init es) i .metrics →
        Reached (trace (step fmt host) Screen.init (es ++ [e])) i .metrics := by
      intro i
      rw [trace_snoc hs]
      exact Reached.mono (List.subset_append_left _ _)
    refine ⟨fun i a ha => ?_, fun i found hmem => ?_⟩
    · rw [trace_snoc hs]
      exact reached_step hcalls ht i a ha
    · rcases List.mem_append.mp hmem with hmem | hmem
      · exact hmono (hread i found hmem)
      · rw [← List.mem_singleton.mp hmem] at ht
        obtain ⟨a, ha, hr⟩ := step_call rfl ht
        cases hr
        exact hmono (hcalls i .metrics ha)
  · exact ⟨fun i a ha => (by cases ha), fun i found hmem => by cases hmem⟩

end Reached

/-! ## What the panel shows -/

/-- The metrics that a run has shown. -/
def shown (es : List Event) : List Findings :=
  es.filterMap fun
    | .metricsRead _ found => some found
    | _ => none

section Shown

variable {fmt : JsFormat} {host : Host} {s s' : Screen} {es : List Event}

/-- Only metrics touch the panel. -/
theorem step_panel {e : Event} (h : step fmt host s e = some s') : s'.panel =
    (shown [e]).foldl (fun p found => receiveMetrics fmt p (metricsBody (getMetrics host found))) s.panel := by
  cases step_spec h with
  | fetch => rfl
  | page e page hpage => rfl
  | call i a e s' ha hr => cases hr <;> rfl

theorem panel_exec (h : exec (step fmt host) Screen.init es = some s)
    (hload : ∀ found ∈ shown es, IsDouble (getMetrics host found).cpuLoad) :
    s.panel = panelOf fmt host (shown es).getLast? ((shown es).filterMap (firstGPU host)).getLast? := by
  revert hload
  refine exec_history (I := fun es s => (∀ found ∈ shown es, IsDouble (getMetrics host found).cpuLoad) →
    s.panel = panelOf fmt host (shown es).getLast? ((shown es).filterMap (firstGPU host)).getLast?) ?_
    (fun _ => rfl) h
  intro es s e t _ ih ht hload
  have happend : shown (es ++ [e]) = shown es ++ shown [e] := List.filterMap_append
  rw [happend] at hload ⊢
  obtain ⟨hes, he⟩ := List.forall_mem_append.mp hload
  rw [step_panel ht, ih hes]
  cases e with
  | metricsRead i found =>
    show receiveMetrics fmt (panelOf fmt host _ _) _ = panelOf fmt host (shown es ++ [found]).getLast?
      ((shown es ++ [found]).filterMap (firstGPU host)).getLast?
    rw [receiveMetrics_panelOf fmt host (he found List.mem_cons_self), List.getLast?_concat, List.filterMap_append]
    congr 1
    cases hfirst : firstGPU host found <;> simp [hfirst]
  | _ => simp [shown]

theorem step_of_call {e : Event} {i : Nat} {a : Await} (he : e.call = some i) (hi : s.calls[i]? = some a) :
    step fmt host s e = resume fmt host s i a e := by
  cases e <;> cases he <;> simp only [step, Event.call, hi, Option.bind_some]

/-- The metrics of the call will be read in some run. -/
def CanRead (fmt : JsFormat) (host : Host) (s : Screen) (i : Nat) : Prop :=
  ∃ es t found, exec (step fmt host) s es = some t ∧ .metricsRead i found ∈ es

theorem canRead_metrics {i : Nat} (hi : s.calls[i]? = some .metrics) : CanRead fmt host s i := by
  obtain ⟨u, hu⟩ : ∃ u, step fmt host s (.metricsRead i ⟨none, none, none⟩) = some u := by
    rw [step_of_call rfl hi]
    exact ⟨_, rfl⟩
  refine ⟨[.metricsRead i ⟨none, none, none⟩], u, ⟨none, none, none⟩, ?_, List.mem_singleton_self _⟩
  rw [exec_cons, hu]
  rfl

theorem canRead_model {i : Nat} (hi : s.calls[i]? = some (.model true)) : CanRead fmt host s i := by
  obtain ⟨u, hu, hnext⟩ : ∃ u, step fmt host s (.modelRead i ⟨none, none, none, none⟩) = some u ∧
      u.calls[i]? = some .metrics := by
    rw [step_of_call rfl hi]
    exact ⟨_, rfl, List.getElem?_set_self (List.getElem?_eq_some_iff.mp hi).1⟩
  have hread : CanRead fmt host u i := canRead_metrics hnext
  obtain ⟨es, t, found, hes, hmem⟩ := hread
  refine ⟨.modelRead i ⟨none, none, none, none⟩ :: es, t, found, ?_, List.mem_cons_of_mem _ hmem⟩
  rw [exec_cons, hu, Option.bind_some, hes]

/-- **When a call gets from its workers to its metrics**: when the workers come through. -/
theorem canRead_iff {i : Nat} {workers : List WorkerInfo} {modelOk : Bool}
    (hi : s.calls[i]? = some (.workers modelOk true)) (h : step fmt host s (.workersRead i workers) = some s') :
    CanRead fmt host s' i ↔ Passes workers s.page := by
  have hset : ∀ a, (s.calls.set i a)[i]? = some a := fun a =>
    List.getElem?_set_self (List.getElem?_eq_some_iff.mp hi).1
  obtain ⟨a, ha, hr⟩ := step_call rfl h
  cases ha.symm.trans hi
  cases hr with
  | shown _ _ _ hpass =>
    refine iff_of_true ?_ hpass
    cases modelOk with
    | true => exact canRead_model (hset (.model true))
    | false => exact canRead_metrics (hset .metrics)
  | throws _ _ _ hpass =>
    refine iff_of_false ?_ hpass
    rintro ⟨es, t, found, hes, hmem⟩
    exact exec_over (hset .over) hes found hmem

/-- **What the panel shows after every run**: the system of the last metrics that have been read, and the first GPU of
the last of these that had one. A call reads its metrics after its responses have come, its workers have come through
and its status has been shown; and when its workers do not come through, it never does. -/
theorem metrics_shown (h : exec (step fmt host) Screen.init es = some s)
    (hload : ∀ found ∈ shown es, IsDouble (getMetrics host found).cpuLoad) :
    s.panel = panelOf fmt host (shown es).getLast? ((shown es).filterMap (firstGPU host)).getLast? ∧
    (∀ i found, .metricsRead i found ∈ es → Reached (trace (step fmt host) Screen.init es) i .metrics) ∧
    ∀ i modelOk workers s', s.calls[i]? = some (.workers modelOk true) →
      step fmt host s (.workersRead i workers) = some s' → (CanRead fmt host s' i ↔ Passes workers s.page) :=
  ⟨panel_exec h hload, (reached_exec h).2, fun _ _ _ _ hi hs => canRead_iff hi hs⟩

end Shown

/-- What two calls of `GetMetrics` find; nvidia-smi fails in the second. -/
def firstFound : Findings :=
  ⟨some ⟨64000000000, 32000000000, 30000000000⟩, some [25], some "RTX 4090, 24564, 1200, 23364, 3, 41"⟩

def secondFound : Findings := ⟨some ⟨64000000000, 33000000000, 29000000000⟩, some [50], none⟩

/-- What the page has of an idle controller. -/
def idleModel : ModelMessage := ⟨some "", some "", some false, some false⟩

/-- Three calls, of which the second overlaps the others: its workers come first, with one that cuts it off. The page
goes on showing the GPU of the first metrics. -/
def threeCalls : List Event :=
  [.fetch, .fetch, .responded 1 true true true,
    .workersRead 1 [manualWorker 0 "10.0.0.2" 50052 "controller"], .responded 0 true true true,
    .workersRead 0 [], .modelRead 0 idleModel, .metricsRead 0 firstFound, .page .frame, .fetch,
    .responded 2 true true true, .workersRead 2 [], .modelRead 2 idleModel, .metricsRead 2 secondFound]

theorem metrics_shown_threeCalls : ∃ s, exec (step unitFormat ⟨false, true⟩) Screen.init threeCalls = some s ∧
    s.panel = panelOf unitFormat ⟨false, true⟩ (some secondFound)
      ([firstFound, secondFound].filterMap (firstGPU ⟨false, true⟩)).getLast? ∧
    (∀ i found, .metricsRead i found ∈ threeCalls →
      Reached (trace (step unitFormat ⟨false, true⟩) Screen.init threeCalls) i .metrics) ∧
    ∀ i modelOk workers s', s.calls[i]? = some (.workers modelOk true) →
      step unitFormat ⟨false, true⟩ s (.workersRead i workers) = some s' →
      (CanRead unitFormat ⟨false, true⟩ s' i ↔ Passes workers s.page) := by
  have hload : ∀ n : ℕ, n ≤ 2 ^ 53 → IsDouble n := fun n hn => Float64.isDouble_natCast hn
  obtain ⟨s, hs⟩ : ∃ s, exec (step unitFormat ⟨false, true⟩) Screen.init threeCalls = some s := ⟨_, rfl⟩
  refine ⟨s, hs, metrics_shown hs (List.forall_mem_cons.mpr ⟨?_, List.forall_mem_singleton.mpr ?_⟩)⟩
  · exact_mod_cast hload 25 (by decide)
  · exact_mod_cast hload 50 (by decide)

end LaManchaland.Wire.Fetch
