import Mathlib.Data.List.DropRight

/-!
# Splitting and trimming

`splitPair a b` splits a list at the two elements `a`, `b`. What stands before the first separator is the first part
(`splitPair_append`), and shortening a list at one of its ends does not give more parts (`length_splitPair_cons`,
`length_splitPair_concat`).

Trimming a text before it is split into lines interacts with the lines at its ends. A reader of lines does not see it
when it ignores empty lines and gives the same result for a line and for the line without an outer blank
(`filterMap_trim`).
-/

namespace LaManchaland.Split

variable {α β : Type*}

/-! ## Separators of two elements -/

section Pair

variable [DecidableEq α]

/-- The parts between separators `a`, `b`, found from left to right. -/
def splitPair (a b : α) : List α → List (List α)
  | [] => [[]]
  | [x] => [[x]]
  | x :: y :: l => if x = a ∧ y = b then [] :: splitPair a b l else (splitPair a b (y :: l)).modifyHead (x :: ·)

variable {a b : α}

theorem splitPair_cons_of_ne {x : α} {l : List α} (h : ¬(x = a ∧ l.head? = some b)) :
    splitPair a b (x :: l) = (splitPair a b l).modifyHead (x :: ·) := by
  cases l with
  | nil => rfl
  | cons y l =>
    rw [List.head?_cons, Option.some.injEq] at h
    rw [splitPair, if_neg h]

theorem splitPair_sep (l : List α) : splitPair a b (a :: b :: l) = [] :: splitPair a b l := by
  rw [splitPair, if_pos ⟨rfl, rfl⟩]

/-- A list without a separator is one part. -/
theorem splitPair_eq_singleton : ∀ {l : List α}, ¬[a, b] <:+: l → splitPair a b l = [l]
  | [], _ => rfl
  | x :: l, h => by
    have hne : ¬(x = a ∧ l.head? = some b) := by
      rintro ⟨rfl, hl⟩
      obtain ⟨l', rfl⟩ := List.head?_eq_some_iff.mp hl
      exact h ⟨[], l', rfl⟩
    rw [splitPair_cons_of_ne hne, splitPair_eq_singleton fun hl => h (List.infix_cons hl)]
    rfl

/-- **The first part** is what stands before the first separator. -/
theorem splitPair_append (hab : a ≠ b) (l : List α) : ∀ {w : List α}, ¬[a, b] <:+: w →
    splitPair a b (w ++ a :: b :: l) = w :: splitPair a b l
  | [], _ => splitPair_sep l
  | x :: w, h => by
    have hne : ¬(x = a ∧ (w ++ a :: b :: l).head? = some b) := by
      rintro ⟨rfl, hw⟩
      cases w with
      | nil =>
        rw [List.nil_append, List.head?_cons, Option.some.injEq] at hw
        exact hab hw
      | cons y w =>
        rw [List.cons_append, List.head?_cons, Option.some.injEq] at hw
        exact h ⟨[], w, by rw [hw]; rfl⟩
    rw [List.cons_append, splitPair_cons_of_ne hne, splitPair_append hab l fun hw => h (List.infix_cons hw)]
    rfl

theorem length_modifyHead {f : β → β} (l : List β) : (l.modifyHead f).length = l.length := by
  cases l <;> rfl

/-- An element in front does not take parts away. -/
theorem length_splitPair_cons (hab : a ≠ b) (x : α) (l : List α) :
    (splitPair a b l).length ≤ (splitPair a b (x :: l)).length := by
  by_cases h : x = a ∧ l.head? = some b
  · obtain ⟨rfl, hl⟩ := h
    obtain ⟨l', rfl⟩ := List.head?_eq_some_iff.mp hl
    have hb : ¬(b = x ∧ l'.head? = some b) := fun hb => hab hb.1.symm
    rw [splitPair_sep, splitPair_cons_of_ne hb, length_modifyHead]
    exact Nat.le_succ _
  · rw [splitPair_cons_of_ne h, length_modifyHead]

/-- An element at the end does not take parts away, and adds none unless it is the second of a separator. -/
theorem length_splitPair_concat (x : α) : ∀ l : List α,
    (splitPair a b l).length ≤ (splitPair a b (l ++ [x])).length ∧
      (x ≠ b → (splitPair a b (l ++ [x])).length = (splitPair a b l).length)
  | [] => ⟨le_refl _, fun _ => rfl⟩
  | [y] => by
    by_cases h : y = a ∧ x = b
    · obtain ⟨rfl, rfl⟩ := h
      rw [List.singleton_append, splitPair_sep]
      exact ⟨Nat.le_succ _, fun hx => absurd rfl hx⟩
    · have hone : splitPair a b ([y] ++ [x]) = [[y, x]] := by
        rw [List.singleton_append, splitPair, if_neg h]
        rfl
      rw [hone]
      exact ⟨le_refl _, fun _ => rfl⟩
  | y :: z :: l => by
    by_cases h : y = a ∧ z = b
    · obtain ⟨hle, heq⟩ := length_splitPair_concat x l
      rw [List.cons_append, List.cons_append, splitPair, splitPair, if_pos h, if_pos h, List.length_cons,
        List.length_cons]
      exact ⟨Nat.succ_le_succ hle, fun hx => congrArg Nat.succ (heq hx)⟩
    · rw [List.cons_append, List.cons_append, splitPair, splitPair, if_neg h, if_neg h, length_modifyHead,
        length_modifyHead, ← List.cons_append]
      exact length_splitPair_concat x (z :: l)

end Pair

/-! ## Trimming -/

section Trim

/-- A text without the blanks around it. -/
def trim (white : α → Bool) (s : List α) : List α := (s.dropWhile white).rdropWhile white

variable {white : α → Bool}

/-- A text without outer blanks is left alone. -/
theorem trim_of_ends {s : List α} (hhead : ∀ c ∈ s.head?, white c = false) (hlast : ∀ c ∈ s.getLast?, white c = false) :
    trim white s = s := by
  have hdrop : s.dropWhile white = s := by
    cases s with
    | nil => rfl
    | cons c s => exact List.dropWhile_cons_of_neg (by simp [hhead c rfl])
  rw [trim, hdrop]
  refine List.rdropWhile_eq_self_iff.mpr fun hne => ?_
  rw [hlast _ (List.getLast?_eq_some_getLast hne)]
  exact Bool.false_ne_true

/-- A blank at the end is dropped. -/
theorem trim_concat {c : α} (hc : white c = true) : ∀ s : List α, trim white (s ++ [c]) = trim white s
  | [] => by simp [trim, hc]
  | x :: s => by
    by_cases hx : white x = true
    · rw [trim, trim, List.cons_append, List.dropWhile_cons_of_pos hx, List.dropWhile_cons_of_pos hx]
      exact trim_concat hc s
    · rw [trim, trim, List.cons_append, List.dropWhile_cons_of_neg hx, List.dropWhile_cons_of_neg hx,
        ← List.cons_append, List.rdropWhile_concat_pos _ _ _ hc]

end Trim

/-! ## Lines -/

section Lines

variable [DecidableEq α] {nl : α}

/-- An element that is appended to a text extends its last line. -/
theorem splitOn_concat {c : α} (hc : c ≠ nl) : ∀ s : List α, ∃ init last, s.splitOn nl = init ++ [last] ∧
    (s ++ [c]).splitOn nl = init ++ [last ++ [c]]
  | [] => ⟨[], [], List.splitOn_nil nl, List.splitOn_eq_singleton (by simpa using Ne.symm hc)⟩
  | x :: s => by
    obtain ⟨init, last, hs, hsc⟩ := splitOn_concat hc s
    rw [List.cons_append, List.splitOn_cons_eq_if_modifyHead, List.splitOn_cons_eq_if_modifyHead, hs, hsc]
    by_cases hx : (x == nl) = true
    · rw [if_pos hx, if_pos hx]
      exact ⟨[] :: init, last, rfl, rfl⟩
    · rw [if_neg hx, if_neg hx]
      cases init with
      | nil => exact ⟨[], x :: last, rfl, rfl⟩
      | cons line init => exact ⟨(x :: line) :: init, last, rfl, rfl⟩

/-- A reader of lines that does not see the blanks at the ends of the good lines. -/
structure Insensitive (white : α → Bool) (nl : α) (f : List α → Option β) (Good : List α → Prop) : Prop where
  empty : f [] = none
  head : ∀ c line, white c = true → c ≠ nl → Good (c :: line) → f (c :: line) = f line ∧ Good line
  last : ∀ c line, white c = true → c ≠ nl → Good (line ++ [c]) → f (line ++ [c]) = f line ∧ Good line

variable {white : α → Bool} {f : List α → Option β} {Good : List α → Prop}

theorem Insensitive.dropWhile (h : Insensitive white nl f Good) : ∀ {s : List α}, (∀ line ∈ s.splitOn nl, Good line) →
    ((s.dropWhile white).splitOn nl).filterMap f = (s.splitOn nl).filterMap f ∧
      ∀ line ∈ (s.dropWhile white).splitOn nl, Good line
  | [], hs => ⟨rfl, hs⟩
  | c :: s, hs => by
    by_cases hc : white c = true
    · rw [List.dropWhile_cons_of_pos hc]
      rw [List.splitOn_cons_eq_if_modifyHead] at hs ⊢
      by_cases hnl : (c == nl) = true
      · rw [if_pos hnl] at hs ⊢
        rw [List.filterMap_cons_none h.empty]
        exact h.dropWhile fun line hline => hs line (List.mem_cons_of_mem _ hline)
      · rw [if_neg hnl] at hs ⊢
        obtain ⟨line, rest, hlines⟩ : ∃ line rest, s.splitOn nl = line :: rest :=
          List.exists_cons_of_ne_nil (List.splitOn_ne_nil nl s)
        rw [hlines, List.modifyHead_cons] at hs ⊢
        obtain ⟨hf, hgood⟩ := h.head c line hc (by simpa using hnl) (hs _ List.mem_cons_self)
        have hs' : ∀ l ∈ s.splitOn nl, Good l := by
          rw [hlines]
          rintro l (_ | ⟨_, hl⟩)
          · exact hgood
          · exact hs l (List.mem_cons_of_mem _ hl)
        obtain ⟨hrows, hall⟩ := h.dropWhile hs'
        refine ⟨?_, hall⟩
        rw [hrows, hlines, List.filterMap_cons, List.filterMap_cons, hf]
    · rw [List.dropWhile_cons_of_neg hc]
      exact ⟨rfl, hs⟩

theorem Insensitive.rdropWhile (h : Insensitive white nl f Good) (s : List α) (hs : ∀ line ∈ s.splitOn nl, Good line) :
    ((s.rdropWhile white).splitOn nl).filterMap f = (s.splitOn nl).filterMap f := by
  induction s using List.reverseRecOn with
  | nil => rfl
  | append_singleton s c ih =>
    by_cases hc : white c = true
    · rw [List.rdropWhile_concat_pos _ _ _ hc]
      by_cases hnl : c = nl
      · subst hnl
        rw [List.splitOn_append_cons_self] at hs ⊢
        rw [ih fun line hline => hs line (List.mem_append_left _ hline), List.filterMap_append, List.splitOn_nil,
          List.filterMap_cons_none h.empty, List.filterMap_nil, List.append_nil]
      · obtain ⟨init, last, hlines, hlines'⟩ := splitOn_concat hnl s
        rw [hlines'] at hs ⊢
        obtain ⟨hf, hgood⟩ := h.last c last hc hnl (hs _ (List.mem_append_right _ List.mem_cons_self))
        have hs' : ∀ l ∈ s.splitOn nl, Good l := by
          rw [hlines]
          intro l hl
          rcases List.mem_append.mp hl with hl | hl
          · exact hs l (List.mem_append_left _ hl)
          · rw [List.mem_singleton.mp hl]
            exact hgood
        rw [ih hs', hlines, List.filterMap_append, List.filterMap_append, List.filterMap_cons, List.filterMap_cons, hf]
    · rw [List.rdropWhile_concat_neg _ _ _ hc]

/-- **Trimming is not seen** by a reader of lines when all lines are good. -/
theorem filterMap_trim (h : Insensitive white nl f Good) {s : List α} (hs : ∀ line ∈ s.splitOn nl, Good line) :
    ((trim white s).splitOn nl).filterMap f = (s.splitOn nl).filterMap f := by
  obtain ⟨hrows, hall⟩ := h.dropWhile hs
  rw [trim, h.rdropWhile _ hall, hrows]

end Lines

end LaManchaland.Split
