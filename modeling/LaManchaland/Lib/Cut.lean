import Mathlib.Data.List.DropRight
import Mathlib.Data.List.TakeWhile

/-!
# Cuts at the last separator

`afterLast x l` and `beforeLast x l` are what stands after and before the last `x` of a list, the whole list when it has
none. Cutting at the last occurrence of one separator after the other is one cut at the last separator of either kind:
the tail is the longest suffix without separators (`afterLast_eq_rtakeWhile`, `rtakeWhile_rtakeWhile`).

`IsCut p l a b` says that `a` is the longest prefix of `l` that is empty or ends with a separator, and that `b` is the
rest. Such a cut exists (`isCut_rdropWhile`), there is only one (`IsCut.unique`), and `b` has no separators.
-/

namespace LaManchaland.Cut

variable {α : Type*}

/-! ## The last occurrence -/

section Last

variable [DecidableEq α]

/-- The index of the last `x`. -/
def lastIdx (x : α) : List α → Option Nat
  | [] => none
  | y :: l =>
    match lastIdx x l with
    | some i => some (i + 1)
    | none => if y = x then some 0 else none

/-- What follows the last `x`. -/
def afterLast (x : α) (l : List α) : List α :=
  match lastIdx x l with
  | some i => l.drop (i + 1)
  | none => l

/-- What precedes the last `x`. -/
def beforeLast (x : α) (l : List α) : List α :=
  match lastIdx x l with
  | some i => l.take i
  | none => l

variable {x : α}

theorem lastIdx_of_not_mem : ∀ {l : List α}, x ∉ l → lastIdx x l = none
  | [], _ => rfl
  | y :: l, h => by
    rw [List.mem_cons, not_or] at h
    rw [lastIdx, lastIdx_of_not_mem h.2]
    exact if_neg (Ne.symm h.1)

theorem lastIdx_append_cons {b : List α} (hb : x ∉ b) : ∀ a : List α, lastIdx x (a ++ x :: b) = some a.length
  | [] => by
    rw [List.nil_append, lastIdx, lastIdx_of_not_mem hb]
    exact if_pos rfl
  | y :: a => by
    rw [List.cons_append, lastIdx, lastIdx_append_cons hb a]
    rfl

/-- A list with an `x` is cut at the last one. -/
theorem exists_last : ∀ {l : List α}, x ∈ l → ∃ a b, l = a ++ x :: b ∧ x ∉ b
  | y :: l, h => by
    by_cases hl : x ∈ l
    · obtain ⟨a, b, rfl, hb⟩ := exists_last hl
      exact ⟨y :: a, b, rfl, hb⟩
    · obtain rfl : x = y := (List.mem_cons.mp h).resolve_right hl
      exact ⟨[], l, rfl, hl⟩

theorem beforeLast_of_not_mem {l : List α} (h : x ∉ l) : beforeLast x l = l := by
  rw [beforeLast, lastIdx_of_not_mem h]

theorem beforeLast_append_cons {a b : List α} (hb : x ∉ b) : beforeLast x (a ++ x :: b) = a := by
  rw [beforeLast, lastIdx_append_cons hb]
  exact List.take_left

/-- What stands before and after the last `x` is determined. -/
theorem append_cons_inj {a a' b b' : List α} (hb : x ∉ b) (hb' : x ∉ b') (h : a ++ x :: b = a' ++ x :: b') :
    a = a' ∧ b = b' := by
  have ha : a = a' := by rw [← @beforeLast_append_cons _ _ _ a b hb, h, beforeLast_append_cons hb']
  rw [ha] at h
  exact ⟨ha, (List.cons.inj (List.append_cancel_left h)).2⟩

/-- What follows the last `x` is the longest suffix without an `x`. -/
theorem afterLast_eq_rtakeWhile (x : α) (l : List α) : afterLast x l = l.rtakeWhile (· ≠ x) := by
  by_cases h : x ∈ l
  · obtain ⟨a, b, rfl, hb⟩ := exists_last h
    rw [afterLast, lastIdx_append_cons hb]
    have hdrop : (a ++ x :: b).drop (a.length + 1) = b := by simp
    have hne : ∀ y ∈ b.reverse, decide (y ≠ x) = true := by
      intro y hy
      rw [List.mem_reverse] at hy
      exact decide_eq_true fun hyx => hb (hyx ▸ hy)
    show (a ++ x :: b).drop (a.length + 1) = _
    rw [hdrop, List.rtakeWhile, List.reverse_append, List.reverse_cons, List.append_assoc,
      List.takeWhile_append_of_pos hne]
    simp
  · rw [afterLast, lastIdx_of_not_mem h]
    refine (List.rtakeWhile_eq_self_iff.mpr fun y hy => ?_).symm
    exact decide_eq_true fun hyx => h (hyx ▸ hy)

end Last

/-- The longest suffix for one condition inside the longest suffix for another. -/
theorem rtakeWhile_rtakeWhile (p q : α → Bool) (l : List α) :
    (l.rtakeWhile q).rtakeWhile p = l.rtakeWhile fun a => p a && q a := by
  simp only [List.rtakeWhile, List.reverse_reverse, List.takeWhile_takeWhile, Bool.decide_and, Bool.decide_eq_true]

/-! ## The cut after the last separator -/

/-- Empty, or ending with a separator. -/
def EndsSep (p : α → Bool) (a : List α) : Prop := ∀ x ∈ a.getLast?, p x = true

/-- `a` is the longest prefix that is empty or ends with a separator, `b` the rest. -/
structure IsCut (p : α → Bool) (l a b : List α) : Prop where
  append : l = a ++ b
  ends : EndsSep p a
  longest : ∀ c, c <+: l → EndsSep p c → c.length ≤ a.length

variable {p : α → Bool} {l a b : List α}

/-- After the longest such prefix there is no separator. -/
theorem IsCut.not_sep (h : IsCut p l a b) : ∀ x ∈ b, p x = false := by
  intro x hx
  by_contra hp
  obtain ⟨b₁, b₂, rfl⟩ := List.append_of_mem hx
  have hprefix : a ++ b₁ ++ [x] <+: l := ⟨b₂, by rw [h.append]; simp⟩
  have hends : EndsSep p (a ++ b₁ ++ [x]) := by
    intro y hy
    rw [List.getLast?_concat, Option.mem_some_iff] at hy
    rw [← hy]
    exact eq_true_of_ne_false hp
  have hlen := h.longest _ hprefix hends
  simp only [List.length_append, List.length_singleton] at hlen
  omega

/-- A prefix that ends with a separator is the longest when no separator follows. -/
theorem isCut_of_not_sep (ha : EndsSep p a) (hb : ∀ x ∈ b, p x = false) : IsCut p (a ++ b) a b := by
  refine ⟨rfl, ha, fun c hc hends => ?_⟩
  by_contra hlt
  obtain ⟨b', hb'⟩ : a <+: c := List.prefix_of_prefix_length_le (List.prefix_append a b) hc (by omega)
  subst hb'
  obtain ⟨r, hr⟩ := hc
  rw [List.append_assoc, List.append_cancel_left_eq] at hr
  have hne : b' ≠ [] := by
    rintro rfl
    simp at hlt
  have hlast := hends (b'.getLast hne) (by
    rw [List.getLast?_append_of_ne_nil _ hne, List.getLast?_eq_getLast_of_ne_nil hne]
    rfl)
  have hmem : b'.getLast hne ∈ b := by
    rw [← hr]
    exact List.mem_append_left _ (List.getLast_mem hne)
  rw [hb _ hmem] at hlast
  cases hlast

/-- The cut exists, at the longest suffix without separators. -/
theorem isCut_rdropWhile (p : α → Bool) (l : List α) :
    IsCut p l (l.rdropWhile fun x => !p x) (l.rtakeWhile fun x => !p x) := by
  have hends : EndsSep p (l.rdropWhile fun x => !p x) := by
    intro x hx
    obtain ⟨hne, rfl⟩ := List.mem_getLast?_eq_getLast hx
    simpa using List.rdropWhile_last_not (fun x => !p x) l hne
  have hsuffix : ∀ x ∈ l.rtakeWhile (fun x => !p x), p x = false := fun x hx => by
    simpa using List.mem_rtakeWhile_imp hx
  have hcut := isCut_of_not_sep hends hsuffix
  rwa [List.rdropWhile_append_rtakeWhile] at hcut

/-- **There is at most one cut.** -/
theorem IsCut.unique {a' b' : List α} (h : IsCut p l a b) (h' : IsCut p l a' b') : a = a' ∧ b = b' := by
  have hle := h'.longest a ⟨b, h.append.symm⟩ h.ends
  have hle' := h.longest a' ⟨b', h'.append.symm⟩ h'.ends
  exact List.append_inj (h.append.symm.trans h'.append) (by omega)

end LaManchaland.Cut
