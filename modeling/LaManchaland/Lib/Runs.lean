import Mathlib.Data.Option.Basic
import Mathlib.Data.List.Induction

/-!
# Runs of a system of partial steps

A system is a function `step : σ → L → Option σ`; a label that is not enabled has no successor.

* `exec step s ls` is the state after the labels `ls`, if all of them are enabled in turn, and `trace step s ls` has the
  steps of the run, each with the state before it.
* `Always step P s ls`: `P` holds in every state of the run of `ls` from `s`.
* `Meets step C s ls`: every step taken by that run meets the condition `C`, which sees the state before the step.

`exec_invariant` and `exec_history` are the inductions over a run, `exec_descends` the one towards its end.
`Always.of_meets` turns an invariant kept by the steps that meet `C` into a fact about whole runs, and
`always_iff_meets` says when the condition is exact: from a state with `P`, a step keeps `P` if and only if it meets
`C`.
-/

namespace Runs

variable {σ L : Type*}

/-- The state after the labels, in order. -/
def exec (step : σ → L → Option σ) : σ → List L → Option σ
  | s, [] => some s
  | s, l :: ls => (step s l).bind fun t => exec step t ls

/-- The steps of the run, each with the state before it. -/
def trace (step : σ → L → Option σ) : σ → List L → List (σ × L)
  | _, [] => []
  | s, l :: ls => (s, l) :: (step s l).elim [] fun t => trace step t ls

/-- `P` holds in every state of the run. -/
def Always (step : σ → L → Option σ) (P : σ → Prop) : σ → List L → Prop
  | s, [] => P s
  | s, l :: ls => P s ∧ ∀ t, step s l = some t → Always step P t ls

/-- Every step of the run meets `C`. -/
def Meets (step : σ → L → Option σ) (C : σ → L → Prop) : σ → List L → Prop
  | _, [] => True
  | s, l :: ls => ∀ t, step s l = some t → C s l ∧ Meets step C t ls

/-- A condition that can be checked at a step can be checked along a run. -/
instance Meets.decidable (step : σ → L → Option σ) (C : σ → L → Prop) [∀ s l, Decidable (C s l)] :
    ∀ (s : σ) (ls : List L), Decidable (Meets step C s ls)
  | _, [] => isTrue trivial
  | s, l :: ls =>
    match h : step s l with
    | none => isTrue fun t ht => by rw [h] at ht; cases ht
    | some t =>
      have : Decidable (Meets step C t ls) := Meets.decidable step C t ls
      decidable_of_iff (C s l ∧ Meets step C t ls)
        ⟨fun hc u hu => by rw [h] at hu; cases hu; exact hc, fun hm => hm t h⟩

section Exec

variable {step : σ → L → Option σ}

@[simp] theorem exec_nil (s : σ) : exec step s [] = some s := rfl

@[simp] theorem exec_cons (s : σ) (l : L) (ls : List L) :
    exec step s (l :: ls) = (step s l).bind fun t => exec step t ls := rfl

/-- The first step of a run. -/
theorem exec_cons_some {s u : σ} {l : L} {ls : List L} (h : exec step s (l :: ls) = some u) :
    ∃ t, step s l = some t ∧ exec step t ls = some u := by
  simpa [Option.bind_eq_some_iff] using h

/-- A run of a concatenation is two runs. -/
theorem exec_append (ls ms : List L) : ∀ s : σ,
    exec step s (ls ++ ms) = (exec step s ls).bind fun t => exec step t ms := by
  induction ls with
  | nil => intro s; rfl
  | cons l ls ih =>
    intro s
    cases hs : step s l with
    | none => simp [hs]
    | some t => simpa [hs] using ih t

theorem exec_append_some {s u : σ} {ls ms : List L} (h : exec step s (ls ++ ms) = some u) :
    ∃ t, exec step s ls = some t ∧ exec step t ms = some u := by
  rw [exec_append] at h
  exact Option.bind_eq_some_iff.mp h

theorem exec_trans {s t u : σ} {ls ms : List L} (h : exec step s ls = some t) (h' : exec step t ms = some u) :
    exec step s (ls ++ ms) = some u := by
  rw [exec_append, h]
  exact h'

/-- The steps of a run that goes on. -/
theorem trace_append {s t : σ} {ls : List L} (h : exec step s ls = some t) (ms : List L) :
    trace step s (ls ++ ms) = trace step s ls ++ trace step t ms := by
  induction ls generalizing s with
  | nil => cases h; rfl
  | cons l ls ih =>
    obtain ⟨u, hu, h⟩ := exec_cons_some h
    simp only [List.cons_append, trace, hu, Option.elim_some, ih h]

/-- The last step. -/
theorem trace_snoc {s t : σ} {ls : List L} (h : exec step s ls = some t) (l : L) :
    trace step s (ls ++ [l]) = trace step s ls ++ [(t, l)] := by
  rw [trace_append h]
  cases hl : step t l <;> simp [trace, hl]

/-- **The invariant rule**: what every step keeps holds after every run. -/
theorem exec_invariant {I : σ → Prop} (hstep : ∀ s l t, I s → step s l = some t → I t) {s t : σ} {ls : List L}
    (hs : I s) (h : exec step s ls = some t) : I t := by
  induction ls generalizing s with
  | nil => cases h; exact hs
  | cons l ls ih =>
    obtain ⟨u, hu, h⟩ := exec_cons_some h
    exact ih (hstep s l u hs hu) h

/-- **The history rule**: what every step keeps, when it may read the labels taken so far, holds after every run. -/
theorem exec_history {I : List L → σ → Prop} {s₀ : σ}
    (hstep : ∀ ls s l t, exec step s₀ ls = some s → I ls s → step s l = some t → I (ls ++ [l]) t)
    (h₀ : I [] s₀) {ls : List L} {s : σ} (h : exec step s₀ ls = some s) : I ls s := by
  induction ls using List.reverseRecOn generalizing s with
  | nil => cases h; exact h₀
  | append_singleton ls l ih =>
    obtain ⟨u, hu, hl⟩ := exec_append_some h
    obtain ⟨t, ht, he⟩ := exec_cons_some hl
    cases he
    exact hstep ls u l s hu (ih hu) ht

/-- **The descent rule**: a system that can always take a step towards `G`, with a label in `D`, gets there. -/
theorem exec_descends {I G : σ → Prop} {D : L → Prop} (size : σ → Nat)
    (hstep : ∀ s, I s → ¬G s → ∃ l t, D l ∧ step s l = some t ∧ I t ∧ size t < size s) {s : σ} (hs : I s) :
    ∃ ls t, (∀ l ∈ ls, D l) ∧ exec step s ls = some t ∧ I t ∧ G t := by
  induction hn : size s using Nat.strongRecOn generalizing s with
  | ind n ih =>
    by_cases hG : G s
    · exact ⟨[], s, nofun, rfl, hs, hG⟩
    · obtain ⟨l, t, hl, ht, hI, hlt⟩ := hstep s hs hG
      obtain ⟨ls, u, hls, hu, hend⟩ := ih (size t) (by omega) hI rfl
      exact ⟨l :: ls, u, by simpa [hl] using hls, by simpa [ht] using hu, hend⟩

end Exec

section Conditions

variable {step : σ → L → Option σ} {P : σ → Prop} {C : σ → L → Prop}

theorem Always.head {s : σ} {ls : List L} (h : Always step P s ls) : P s := by
  cases ls with
  | nil => exact h
  | cons l ls => exact h.1

/-- `P` holds in the last state of a run on which it always holds. -/
theorem Always.last {s t : σ} {ls : List L} (h : Always step P s ls) (ht : exec step s ls = some t) : P t := by
  induction ls generalizing s with
  | nil => cases ht; exact h
  | cons l ls ih =>
    obtain ⟨u, hu, ht⟩ := exec_cons_some ht
    exact ih (h.2 u hu) ht

theorem Always.mono {Q : σ → Prop} (hPQ : ∀ s, P s → Q s) {s : σ} {ls : List L} (h : Always step P s ls) :
    Always step Q s ls := by
  induction ls generalizing s with
  | nil => exact hPQ s h
  | cons l ls ih => exact ⟨hPQ s h.1, fun t ht => ih (h.2 t ht)⟩

/-- A run on which `P` does not always hold reaches a state without it. -/
theorem exists_of_not_always {s : σ} {ls : List L} (h : ¬Always step P s ls) :
    ∃ pre t, pre <+: ls ∧ exec step s pre = some t ∧ ¬P t := by
  induction ls generalizing s with
  | nil => exact ⟨[], s, List.nil_prefix, rfl, h⟩
  | cons l ls ih =>
    by_cases hp : P s
    · simp only [Always, hp, true_and, not_forall] at h
      obtain ⟨t, ht, h⟩ := h
      obtain ⟨pre, u, hpre, hu, hn⟩ := ih h
      exact ⟨l :: pre, u, List.cons_prefix_cons.mpr ⟨rfl, hpre⟩, by simpa [ht] using hu, hn⟩
    · exact ⟨[], s, List.nil_prefix, rfl, hp⟩

/-- A condition on the labels alone. -/
theorem Meets.of_forall {D : L → Prop} : ∀ {ls : List L} (s : σ), (∀ l ∈ ls, D l) → Meets step (fun _ l => D l) s ls
  | [], _, _ => trivial
  | l :: _, _, h => fun t _ => ⟨h l List.mem_cons_self, Meets.of_forall t fun m hm => h m (List.mem_cons_of_mem _ hm)⟩

/-- An invariant kept by the steps that meet `C` holds in every state of a run that meets `C`. -/
theorem Always.of_meets (hstep : ∀ s l t, P s → C s l → step s l = some t → P t) {s : σ} {ls : List L} (hs : P s)
    (h : Meets step C s ls) : Always step P s ls := by
  induction ls generalizing s with
  | nil => exact hs
  | cons l ls ih => exact ⟨hs, fun t ht => ih (hstep s l t hs (h t ht).1 ht) (h t ht).2⟩

/-- The same for the last state of the run. -/
theorem Meets.last (hstep : ∀ s l t, P s → C s l → step s l = some t → P t) {s t : σ} {ls : List L} (hs : P s)
    (h : Meets step C s ls) (ht : exec step s ls = some t) : P t :=
  (Always.of_meets hstep hs h).last ht

/-- **The exact condition of a run**: when every step keeps `I`, and from a state with `I` and `P` a step keeps `P`
if and only if it meets `C`, then `P` holds along a run if and only if all its steps meet `C`. -/
theorem always_iff_meets {I : σ → Prop} (hI : ∀ s l t, I s → step s l = some t → I t)
    (hP : ∀ s l t, I s → P s → step s l = some t → (P t ↔ C s l)) {s : σ} (hs : I s) (hp : P s) (ls : List L) :
    Always step P s ls ↔ Meets step C s ls := by
  induction ls generalizing s with
  | nil => exact iff_of_true hp trivial
  | cons l ls ih =>
    refine ⟨fun h t ht => ?_, fun h => ⟨hp, fun t ht => ?_⟩⟩
    · have hpt : P t := (h.2 t ht).head
      exact ⟨(hP s l t hs hp ht).mp hpt, (ih (hI s l t hs ht) hpt).mp (h.2 t ht)⟩
    · have hpt : P t := (hP s l t hs hp ht).mpr (h t ht).1
      exact (ih (hI s l t hs ht) hpt).mpr (h t ht).2

end Conditions

end Runs
