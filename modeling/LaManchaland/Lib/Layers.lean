import Mathlib.Logic.Basic

/-!
# Settings in layers

A setting comes from the first of a list of flags that was given, or else from the layer below. A program that sees of
a flag only its value, which is the default when the flag was not given, can tell the two apart only by the value:
`Flag.apply` lets a flag override the layers below when its value is not its default.

`effective_eq_iff`: such a program finds the setting exactly when every flag in charge either differs from its default
or repeats what the layers below leave anyway (`Respected`).
-/

namespace Layers

variable {α : Type*} [DecidableEq α]

/-- A flag with its default, and the value that it was given. -/
structure Flag (α : Type*) where
  default : α
  given : Option α

/-- The value of the flag after parsing. -/
def Flag.value (f : Flag α) : α := f.given.getD f.default

/-- The flag overrides the layers below when its value is not the default. -/
def Flag.apply (f : Flag α) (low : α) : α := if f.value ≠ f.default then f.value else low

/-- The setting of the program; the first flag is the last one applied. -/
def effective : List (Flag α) → α → α
  | [], low => low
  | f :: fs, low => f.apply (effective fs low)

/-- The setting that the user asked for. -/
def expected : List (Flag α) → α → α
  | [], low => low
  | f :: fs, low => f.given.getD (expected fs low)

/-- The flags, over a layer of which `Low` says what it leaves, leave `x`. -/
def Leaves (Low : α → Prop) (x : α) : List (Flag α) → Prop
  | [] => Low x
  | f :: fs => (f.given = some x ∧ x ≠ f.default) ∨ ((f.given = none ∨ f.given = some f.default) ∧ Leaves Low x fs)

/-- The first flag given, if any, is not at its default, or the layers below leave the default as well; without any
flag given, `base` holds. -/
def Respected (Low : α → Prop) (base : Prop) : List (Flag α) → Prop
  | [] => base
  | f :: fs =>
    match f.given with
    | some v => v = f.default → Leaves Low v fs
    | none => Respected Low base fs

section Spec

variable {f : Flag α} {low want x : α} {Low : α → Prop} {base : Prop}

theorem Flag.apply_none (h : f.given = none) : f.apply low = low := by
  simp [Flag.apply, Flag.value, h]

theorem Flag.apply_default (h : f.given = some f.default) : f.apply low = low := by
  simp [Flag.apply, Flag.value, h]

theorem Flag.apply_given (h : f.given = some x) (hx : x ≠ f.default) : f.apply low = x := by
  simp [Flag.apply, Flag.value, h, hx]

/-- What the flags leave is the setting of the program. -/
theorem leaves_iff (hLow : Low x ↔ low = x) : ∀ fs : List (Flag α), Leaves Low x fs ↔ effective fs low = x
  | [] => hLow
  | f :: fs => by
    rw [Leaves, effective, leaves_iff hLow fs]
    cases hg : f.given with
    | none =>
      rw [Flag.apply_none hg]
      simp
    | some v =>
      by_cases hv : v = f.default
      · subst hv
        rw [Flag.apply_default hg]
        simp +contextual [eq_comm]
      · rw [Flag.apply_given hg hv]
        simp only [Option.some.injEq, reduceCtorEq, hv, or_self, false_and, or_false]
        exact ⟨fun h => h.1, fun h => ⟨h, h ▸ hv⟩⟩

/-- **When the program finds the setting that the user asked for.** -/
theorem effective_eq_iff (hLow : ∀ x, Low x ↔ low = x) (hbase : base ↔ low = want) : ∀ fs : List (Flag α),
    effective fs low = expected fs want ↔ Respected Low base fs
  | [] => hbase.symm
  | f :: fs => by
    rw [effective, expected, Respected]
    cases hg : f.given with
    | none =>
      rw [Flag.apply_none hg]
      exact effective_eq_iff hLow hbase fs
    | some v =>
      by_cases hv : v = f.default
      · subst hv
        rw [Flag.apply_default hg]
        simp [leaves_iff (hLow _) fs]
      · rw [Flag.apply_given hg hv]
        simp [hv]

end Spec

end Layers
