import LaManchaland.Api.LastRequest
import LaManchaland.Api.Settings

/-!
# The model status that the page shows

The page learns the state of the model from the broadcasts and from `GET /api/model`, and `updateModelStatus` shows
either message. A `ModelMessage` has each field of such a message present or absent; the broadcast has the path and
`loaded` only (`pushed`), the answer to the poll has all fields (`polled`).

`sameStory_iff`: both leave the page with the same status, button and paths exactly when a running model is loaded and
the page already has the projector of the controller.
-/

namespace LaManchaland.Ui

open Runs
open Api (Controller Payload ModelStatus broadcastPayload handleModelGet)

/-- The model object of a message; an absent field is `undefined`. -/
structure ModelMessage where
  path : Option String
  mmproj : Option String
  loaded : Option Bool
  running : Option Bool

/-- The model object of a broadcast. -/
def broadcastModel (p : Payload) : ModelMessage := ⟨some p.path, none, some p.loaded, none⟩

/-- The body of `GET /api/model`. -/
def pollModel (s : ModelStatus) : ModelMessage := ⟨some s.path, some s.mmproj, some s.loaded, some s.running⟩

/-- What the page keeps and shows of the model. -/
structure ModelView where
  modelPath : String
  stateText : String
  stateClass : String
  loadDisplay : String
  unloadDisplay : String
  mmprojPath : String
  mmprojInput : String
  mmprojSection : String
  deriving DecidableEq

/-- A string field that is present and not empty. -/
def truthy (field : Option String) : Bool := field.getD "" ≠ ""

/-- The status of the first part of `updateModelStatus`. -/
def showState (model : ModelMessage) (view : ModelView) : ModelView :=
  if model.running.getD false || model.loaded.getD false then
    { view with
      stateText := "Running"
      stateClass := "model-state-text loaded"
      loadDisplay := "none"
      unloadDisplay := "inline-flex" }
  else if truthy model.path then
    { view with
      stateText := "Loaded"
      stateClass := "model-state-text"
      loadDisplay := "inline-flex"
      unloadDisplay := "none" }
  else
    { view with
      stateText := "Not loaded"
      stateClass := "model-state-text"
      loadDisplay := "inline-flex"
      unloadDisplay := "none" }

def updateModelStatus (model : ModelMessage) (view : ModelView) : ModelView :=
  let view := if truthy model.path then { view with modelPath := model.path.getD "" } else view
  let view := showState model view
  if truthy model.mmproj then
    { view with
      mmprojPath := model.mmproj.getD ""
      mmprojInput := model.mmproj.getD ""
      mmprojSection := "flex" }
  else view

/-- The page after a broadcast, and after a poll. -/
def pushed (c : Controller) (view : ModelView) : ModelView :=
  updateModelStatus (broadcastModel (broadcastPayload c)) view

def polled (c : Controller) (view : ModelView) : ModelView :=
  updateModelStatus (pollModel (handleModelGet c).body) view

/-- Broadcast and poll leave the same status, button and paths, and the projector of the controller. -/
structure SameStory (c : Controller) (view : ModelView) : Prop where
  text : (pushed c view).stateText = (polled c view).stateText
  button : (pushed c view).loadDisplay = (polled c view).loadDisplay ∧
    (pushed c view).unloadDisplay = (polled c view).unloadDisplay
  path : (pushed c view).modelPath = (polled c view).modelPath
  mmproj : (pushed c view).mmprojPath = (polled c view).mmprojPath
  controller : (pushed c view).mmprojPath = c.api.mmprojPath

section Fields

variable (model : ModelMessage) (view : ModelView)

/-- Every message leaves one button. -/
theorem updateModelStatus_button :
    ((updateModelStatus model view).loadDisplay, (updateModelStatus model view).unloadDisplay) =
      if model.running.getD false || model.loaded.getD false then ("none", "inline-flex")
      else ("inline-flex", "none") := by
  simp only [updateModelStatus, showState]
  split_ifs <;> rfl

theorem updateModelStatus_text : (updateModelStatus model view).stateText =
    if model.running.getD false || model.loaded.getD false then "Running"
    else if truthy model.path then "Loaded" else "Not loaded" := by
  simp only [updateModelStatus, showState]
  split_ifs <;> rfl

theorem updateModelStatus_path : (updateModelStatus model view).modelPath =
    if truthy model.path then model.path.getD "" else view.modelPath := by
  simp only [updateModelStatus, showState]
  split_ifs <;> rfl

theorem updateModelStatus_mmproj :
    (updateModelStatus model view).mmprojPath =
      if truthy model.mmproj then model.mmproj.getD "" else view.mmprojPath := by
  simp only [updateModelStatus, showState]
  split_ifs <;> rfl

end Fields

section Encoders

variable {c : Controller} {view : ModelView}

/-- A broadcast leaves the projector of the page alone. -/
theorem pushed_mmproj : (pushed c view).mmprojPath = view.mmprojPath := updateModelStatus_mmproj _ _

theorem polled_mmproj :
    (polled c view).mmprojPath = if c.api.mmprojPath = "" then view.mmprojPath else c.api.mmprojPath := by
  rw [polled, updateModelStatus_mmproj]
  by_cases h : c.api.mmprojPath = "" <;> simp [truthy, pollModel, handleModelGet, h]

/-- The path comes with both messages. -/
theorem pushed_path : (pushed c view).modelPath = (polled c view).modelPath := by
  rw [pushed, polled, updateModelStatus_path, updateModelStatus_path]
  rfl

/-- When a running model is loaded, both messages show the same status and button. -/
theorem pushed_eq_of_loaded (h : c.llm.srv.isRunning = true → c.api.modelLoaded = true) :
    (pushed c view).stateText = (polled c view).stateText ∧
      ((pushed c view).loadDisplay, (pushed c view).unloadDisplay) =
        ((polled c view).loadDisplay, (polled c view).unloadDisplay) := by
  have hflag : (c.llm.srv.isRunning || c.api.modelLoaded) = c.api.modelLoaded := by
    cases hr : c.llm.srv.isRunning with
    | false => rfl
    | true => rw [h hr]; rfl
  rw [pushed, polled, updateModelStatus_text, updateModelStatus_text, updateModelStatus_button,
    updateModelStatus_button]
  simp only [broadcastModel, broadcastPayload, pollModel, handleModelGet, Option.getD_some, Option.getD_none,
    Bool.false_or, hflag]
  exact ⟨rfl, trivial⟩

/-- A model that runs and is not loaded is running for the poll alone. -/
theorem pushed_ne_of_running (hr : c.llm.srv.isRunning = true) (hl : c.api.modelLoaded = false) :
    (pushed c view).stateText ≠ (polled c view).stateText := by
  rw [pushed, polled, updateModelStatus_text, updateModelStatus_text]
  simp only [broadcastModel, broadcastPayload, pollModel, handleModelGet, Option.getD_some, Option.getD_none, hr, hl,
    Bool.or_false, if_true, Bool.false_eq_true, if_false]
  by_cases hp : truthy (some c.api.modelPath) = true
  · rw [if_pos hp]
    decide
  · rw [if_neg hp]
    decide

end Encoders

/-- **When push and poll tell the same story**, for every controller and every page: a running model is loaded, and the
page has the projector of the controller. -/
theorem sameStory_iff (c : Controller) (view : ModelView) :
    SameStory c view ↔
      (c.llm.srv.isRunning = true → c.api.modelLoaded = true) ∧ view.mmprojPath = c.api.mmprojPath := by
  constructor
  · intro h
    refine ⟨fun hr => ?_, pushed_mmproj.symm.trans h.controller⟩
    by_contra hl
    exact pushed_ne_of_running hr (Bool.eq_false_iff.mpr hl) h.text
  · rintro ⟨hflag, hmm⟩
    obtain ⟨htext, hbutton⟩ : (pushed c view).stateText = _ ∧ _ := pushed_eq_of_loaded hflag
    refine ⟨htext, Prod.mk.inj hbutton, pushed_path, ?_, pushed_mmproj.trans hmm⟩
    rw [pushed_mmproj, polled_mmproj, hmm]
    split <;> rfl

/-- The page as it is served. -/
def freshView : ModelView := ⟨"", "Not loaded", "model-state-text", "inline-flex", "none", "", "", "none"⟩

/-- A load whose server never becomes healthy: `Start` returns its error after the last section. -/
def timedOutLoad : List Api.Label :=
  Api.loadHandled ++ List.replicate 2 (.advance ⟨{ Llmserver.envUp with health := fun _ => false }, fun _ => false⟩ 1)

/-- After it, a poll shows a running model and a broadcast does not. -/
theorem story_timedOut : ¬∀ (ls : List Api.Label) (s : Api.Sys) (view : ModelView),
    exec Api.step (Api.Sys.init Api.idleController) ls = some s → SameStory s.pool.state view := by
  intro h
  have hstory := h timedOutLoad _ freshView rfl
  have htext : "Loaded" = "Running" := hstory.text
  exact absurd htext (by decide)

end LaManchaland.Ui
