import Mathlib.Data.List.Induction
import Mathlib.Order.Lattice

/-!
# JSON values

A JSON value over any numbers and any strings, with the members of an object in a list. Functions on values are folds
(`Json.fold`), and proofs are by `Json.induct`.

As a list of members an object may have a key twice and in any order. What it means is the list that `collect` leaves:
sorted by key, with the last value of each key. `Json.canon` does this at every depth, and maps the numbers and the
strings on the way; `canon id id` is the meaning of a value. `canon_comp`: a second pass that leaves the strings alone
maps the numbers only. `get_kept_iff`: the members of an object mean the same after numbers and strings are mapped
exactly when every number and string that they mean is left alone.
-/

namespace LaManchaland

/-! ## Sorted lists of members -/

namespace Fields

variable {κ α β : Type*} [LinearOrder κ]

/-- The member of a key is replaced, or comes in at its place. -/
def setKey (k : κ) (v : α) : List (κ × α) → List (κ × α)
  | [] => [(k, v)]
  | (k', v') :: l =>
    if k < k' then (k, v) :: (k', v') :: l
    else if k = k' then (k, v) :: l
    else (k', v') :: setKey k v l

/-- The members in order, one for each key; the last value of a key counts. -/
def collect (l : List (κ × α)) : List (κ × α) := l.foldl (fun m p => setKey p.1 p.2 m) []

/-- The value of the first member with a key. -/
def get (k : κ) : List (κ × α) → Option α
  | [] => none
  | (k', v) :: l => if k = k' then some v else get k l

/-- The keys increase. -/
def Increasing (l : List (κ × α)) : Prop := l.Pairwise fun p q => p.1 < q.1

theorem mem_setKey {k : κ} {v : α} {p : κ × α} : ∀ {l : List (κ × α)}, p ∈ setKey k v l → p = (k, v) ∨ p ∈ l
  | [], h => .inl (List.mem_singleton.mp h)
  | (k', v') :: l, h => by
    unfold setKey at h
    split at h
    · exact List.mem_cons.mp h
    split at h
    · exact (List.mem_cons.mp h).imp_right (List.mem_cons_of_mem _)
    · rcases List.mem_cons.mp h with rfl | h
      · exact .inr List.mem_cons_self
      · exact (mem_setKey h).imp_right (List.mem_cons_of_mem _)

theorem increasing_setKey (k : κ) (v : α) : ∀ {l : List (κ × α)}, Increasing l → Increasing (setKey k v l)
  | [], _ => List.pairwise_singleton _ _
  | (k', v') :: l, h => by
    have hhead := (List.pairwise_cons.mp h).1
    unfold setKey
    split
    · rename_i hlt
      refine List.pairwise_cons.mpr ⟨fun q hq => ?_, h⟩
      rcases List.mem_cons.mp hq with rfl | hq
      · exact hlt
      · exact lt_trans hlt (hhead q hq)
    split
    · rename_i heq
      subst heq
      exact List.pairwise_cons.mpr ⟨hhead, (List.pairwise_cons.mp h).2⟩
    · rename_i hlt heq
      refine List.pairwise_cons.mpr ⟨fun q hq => ?_, increasing_setKey k v (List.pairwise_cons.mp h).2⟩
      rcases mem_setKey hq with rfl | hq
      · exact lt_of_le_of_ne (not_lt.mp hlt) (Ne.symm heq)
      · exact hhead q hq

@[simp] theorem get_cons (k k' : κ) (v : α) (l : List (κ × α)) :
    get k' ((k, v) :: l) = if k' = k then some v else get k' l := rfl

theorem get_setKey (k k' : κ) (v : α) : ∀ l : List (κ × α),
    get k' (setKey k v l) = if k' = k then some v else get k' l
  | [] => get_cons k k' v []
  | (k₀, v₀) :: l => by
    unfold setKey
    split
    · exact get_cons k k' v _
    split
    · rename_i heq
      subst heq
      rw [get_cons, get_cons]
      split <;> rfl
    · rename_i hne
      rw [get_cons, get_cons, get_setKey k k' v l]
      by_cases h : k' = k₀
      · rw [if_pos h, if_pos h, if_neg fun h' => hne (h'.symm.trans h)]
      · rw [if_neg h, if_neg h]

theorem mem_of_get {k : κ} {v : α} : ∀ {l : List (κ × α)}, get k l = some v → (k, v) ∈ l
  | (k', v') :: l, h => by
    rw [get_cons] at h
    split at h
    · rename_i hk
      cases h
      rw [hk]
      exact List.mem_cons_self
    · exact List.mem_cons_of_mem _ (mem_of_get h)

theorem map_setKey (g : α → β) (k : κ) (v : α) : ∀ l : List (κ × α),
    (setKey k v l).map (Prod.map id g) = setKey k (g v) (l.map (Prod.map id g))
  | [] => rfl
  | (k', v') :: l => by
    unfold setKey
    simp only [List.map_cons, Prod.map_apply, id_eq]
    split
    · rfl
    split
    · rfl
    · rw [List.map_cons, map_setKey g k v l]
      rfl

/-- A key above all others comes last. -/
theorem setKey_of_lt {k : κ} (v : α) : ∀ {l : List (κ × α)}, (∀ p ∈ l, p.1 < k) → setKey k v l = l ++ [(k, v)]
  | [], _ => rfl
  | (k', v') :: l, h => by
    have hlt : k' < k := h (k', v') List.mem_cons_self
    rw [setKey, if_neg hlt.asymm, if_neg hlt.ne', setKey_of_lt v fun p hp => h p (List.mem_cons_of_mem _ hp)]
    rfl

/-- A member that is there already. -/
theorem setKey_of_get {k : κ} {v : α} : ∀ {l : List (κ × α)}, Increasing l → get k l = some v → setKey k v l = l
  | (k', v') :: l, hl, h => by
    obtain ⟨hlt, hl⟩ := List.pairwise_cons.mp hl
    rw [get_cons] at h
    by_cases hk : k = k'
    · rw [if_pos hk, Option.some.injEq] at h
      rw [setKey, if_neg (hk ▸ lt_irrefl k), if_pos hk, hk, h]
    · rw [if_neg hk] at h
      rw [setKey, if_neg (hlt (k, v) (mem_of_get h)).asymm, if_neg hk, setKey_of_get hl h]

theorem collect_append (l : List (κ × α)) (p : κ × α) : collect (l ++ [p]) = setKey p.1 p.2 (collect l) := by
  simp [collect]

theorem increasing_collect (l : List (κ × α)) : Increasing (collect l) := by
  induction l using List.reverseRecOn with
  | nil => exact List.Pairwise.nil
  | append_singleton l p ih =>
    rw [collect_append]
    exact increasing_setKey p.1 p.2 ih

theorem mem_of_mem_collect {l : List (κ × α)} {p : κ × α} (h : p ∈ collect l) : p ∈ l := by
  induction l using List.reverseRecOn with
  | nil => exact h
  | append_singleton l q ih =>
    rw [collect_append] at h
    rcases mem_setKey h with rfl | h
    · exact List.mem_append_right l List.mem_cons_self
    · exact List.mem_append_left _ (ih h)

theorem map_collect (g : α → β) (l : List (κ × α)) :
    (collect l).map (Prod.map id g) = collect (l.map (Prod.map id g)) := by
  induction l using List.reverseRecOn with
  | nil => rfl
  | append_singleton l p ih =>
    rw [collect_append, map_setKey, ih, List.map_append]
    exact (collect_append (l.map (Prod.map id g)) (Prod.map id g p)).symm

/-- **Members in order stay as they are.** -/
theorem collect_of_increasing {l : List (κ × α)} (h : Increasing l) : collect l = l := by
  induction l using List.reverseRecOn with
  | nil => rfl
  | append_singleton l p ih =>
    obtain ⟨hl, -, hlt⟩ := List.pairwise_append.mp h
    rw [collect_append, ih hl]
    exact setKey_of_lt p.2 fun q hq => hlt q hq p List.mem_cons_self

theorem get_of_mem {k : κ} {v : α} : ∀ {l : List (κ × α)}, Increasing l → (k, v) ∈ l → get k l = some v
  | (k', v') :: l, hl, h => by
    obtain ⟨hlt, hl⟩ := List.pairwise_cons.mp hl
    rw [get_cons]
    rcases List.mem_cons.mp h with h | h
    · cases h
      exact if_pos rfl
    · rw [if_neg (hlt (k, v) h).ne']
      exact get_of_mem hl h

theorem get_map (g : α → β) (k : κ) : ∀ l : List (κ × α), get k (l.map (Prod.map id g)) = (get k l).map g
  | [] => rfl
  | (k', v') :: l => by
    simp only [List.map_cons, Prod.map_apply, id_eq, get_cons, get_map g k l]
    split <;> rfl

theorem get_append (k : κ) : ∀ l l' : List (κ × α), get k (l ++ l') = (get k l).or (get k l')
  | [], _ => rfl
  | (k', v) :: l, l' => by
    rw [List.cons_append, get_cons, get_cons, get_append k l l']
    split <;> rfl

theorem get_of_forall_ne {k : κ} : ∀ {l : List (κ × α)}, (∀ p ∈ l, k ≠ p.1) → get k l = none
  | [], _ => rfl
  | p :: l, h => by
    obtain ⟨hp, hl⟩ := List.forall_mem_cons.mp h
    rw [get, if_neg hp, get_of_forall_ne hl]

/-- **The last value of a key counts.** -/
theorem get_collect (k : κ) (l : List (κ × α)) : get k (collect l) = get k l.reverse := by
  induction l using List.reverseRecOn with
  | nil => rfl
  | append_singleton l p ih =>
    rw [collect_append, get_setKey, ih, List.reverse_append]
    rfl

theorem increasing_map (g : α → β) {l : List (κ × α)} (h : Increasing l) : Increasing (l.map (Prod.map id g)) :=
  List.pairwise_map.mpr h

end Fields

open Fields

/-! ## Values -/

/-- A JSON value; an object has its members in a list. -/
inductive Json (ν κ : Type) where
  | null
  | bool (b : Bool)
  | num (n : ν)
  | str (s : κ)
  | arr (items : List (Json ν κ))
  | obj (fields : List (κ × Json ν κ))

namespace Json

variable {ν ν' ν'' κ : Type}

/-- What a fold does at each kind of value. -/
structure Alg (ν κ : Type) (α : Type*) where
  null : α
  bool : Bool → α
  num : ν → α
  str : κ → α
  arr : List α → α
  obj : List (κ × α) → α

section Fold

variable {α : Type*}

mutual

def fold (a : Alg ν κ α) : Json ν κ → α
  | .null => a.null
  | .bool b => a.bool b
  | .num n => a.num n
  | .str s => a.str s
  | .arr items => a.arr (foldItems a items)
  | .obj fields => a.obj (foldFields a fields)

def foldItems (a : Alg ν κ α) : List (Json ν κ) → List α
  | [] => []
  | v :: items => fold a v :: foldItems a items

def foldFields (a : Alg ν κ α) : List (κ × Json ν κ) → List (κ × α)
  | [] => []
  | (k, v) :: fields => (k, fold a v) :: foldFields a fields

end

theorem foldItems_eq (a : Alg ν κ α) : ∀ items, foldItems a items = items.map (fold a)
  | [] => rfl
  | v :: items => congrArg (fold a v :: ·) (foldItems_eq a items)

theorem foldFields_eq (a : Alg ν κ α) : ∀ fields, foldFields a fields = fields.map (Prod.map id (fold a))
  | [] => rfl
  | (k, v) :: fields => congrArg ((k, fold a v) :: ·) (foldFields_eq a fields)

theorem fold_arr (a : Alg ν κ α) (items : List (Json ν κ)) : fold a (.arr items) = a.arr (items.map (fold a)) := by
  rw [fold, foldItems_eq]

theorem fold_obj (a : Alg ν κ α) (fields : List (κ × Json ν κ)) :
    fold a (.obj fields) = a.obj (fields.map (Prod.map id (fold a))) := by
  rw [fold, foldFields_eq]

end Fold

/-- **Induction on values**: an array by its items, an object by the values of its members. -/
@[elab_as_elim]
theorem induct {P : Json ν κ → Prop} (null : P .null) (bool : ∀ b, P (.bool b)) (num : ∀ n, P (.num n))
    (str : ∀ s, P (.str s)) (arr : ∀ items, (∀ v ∈ items, P v) → P (.arr items))
    (obj : ∀ fields, (∀ p ∈ fields, P p.2) → P (.obj fields)) (v : Json ν κ) : P v :=
  @Json.rec ν κ P (fun items => ∀ v ∈ items, P v) (fun fields => ∀ p ∈ fields, P p.2) (fun p => P p.2)
    null bool num str arr obj (fun _ h => by cases h) (fun _ _ hv hitems => List.forall_mem_cons.mpr ⟨hv, hitems⟩)
    (fun _ h => by cases h) (fun _ _ hp hfields => List.forall_mem_cons.mpr ⟨hp, hfields⟩) (fun _ _ hv => hv) v

/-! ## Numbers, strings and depth -/

def numbersAlg : Alg ν κ (List ν) where
  null := []
  bool _ := []
  num n := [n]
  str _ := []
  arr items := items.flatten
  obj fields := fields.flatMap Prod.snd

/-- The numbers of a value, at every depth. -/
def numbers : Json ν κ → List ν := fold numbersAlg

def stringsAlg : Alg ν κ (List κ) where
  null := []
  bool _ := []
  num _ := []
  str s := [s]
  arr items := items.flatten
  obj fields := fields.flatMap fun p => p.1 :: p.2

/-- The strings of a value and the keys of its objects, at every depth. -/
def strings : Json ν κ → List κ := fold stringsAlg

def depthAlg : Alg ν κ Nat where
  null := 0
  bool _ := 0
  num _ := 0
  str _ := 0
  arr items := items.foldr max 0 + 1
  obj fields := (fields.map Prod.snd).foldr max 0 + 1

/-- How deep arrays and objects are nested. -/
def depth : Json ν κ → Nat := fold depthAlg

theorem mem_numbers_arr {n : ν} {items : List (Json ν κ)} :
    n ∈ (arr items : Json ν κ).numbers ↔ ∃ v ∈ items, n ∈ v.numbers := by
  simp [numbers, fold_arr, numbersAlg]

theorem mem_numbers_obj {n : ν} {fields : List (κ × Json ν κ)} :
    n ∈ (obj fields).numbers ↔ ∃ p ∈ fields, n ∈ p.2.numbers := by
  simp [numbers, fold_obj, numbersAlg, List.flatMap_map]

theorem mem_strings_arr {s : κ} {items : List (Json ν κ)} :
    s ∈ (arr items : Json ν κ).strings ↔ ∃ v ∈ items, s ∈ v.strings := by
  simp [strings, fold_arr, stringsAlg]

theorem mem_strings_obj {s : κ} {fields : List (κ × Json ν κ)} :
    s ∈ (obj fields).strings ↔ ∃ p ∈ fields, s = p.1 ∨ s ∈ p.2.strings := by
  simp [strings, fold_obj, stringsAlg, List.flatMap_map]

theorem foldr_max_le {l : List Nat} {m : Nat} : l.foldr max 0 ≤ m ↔ ∀ n ∈ l, n ≤ m := by
  induction l with
  | nil => simp
  | cons n l ih => rw [List.foldr_cons, Nat.max_le, ih, List.forall_mem_cons]

theorem depth_arr_le {items : List (Json ν κ)} {m : Nat} :
    (arr items : Json ν κ).depth ≤ m + 1 ↔ ∀ v ∈ items, v.depth ≤ m := by
  simp [depth, fold_arr, depthAlg, foldr_max_le]

theorem depth_obj_le {fields : List (κ × Json ν κ)} {m : Nat} :
    (obj fields).depth ≤ m + 1 ↔ ∀ p ∈ fields, p.2.depth ≤ m := by
  have hvalues : (obj fields).depth = (fields.map fun p => p.2.depth).foldr max 0 + 1 := by
    show (fold depthAlg (obj fields)) = _
    rw [fold_obj]
    show ((fields.map (Prod.map id (fold depthAlg))).map Prod.snd).foldr max 0 + 1 = _
    rw [List.map_map]
    rfl
  rw [hvalues, Nat.add_le_add_iff_right, foldr_max_le]
  exact List.forall_mem_map

def mapAlg (g : ν → ν') (h : κ → κ) : Alg ν κ (Json ν' κ) where
  null := .null
  bool := .bool
  num n := .num (g n)
  str s := .str (h s)
  arr := .arr
  obj fields := .obj (fields.map (Prod.map h id))

/-- The numbers and the strings are mapped. -/
def map (g : ν → ν') (h : κ → κ) : Json ν κ → Json ν' κ := fold (mapAlg g h)

theorem map_arr (g : ν → ν') (h : κ → κ) (items : List (Json ν κ)) :
    map g h (.arr items) = .arr (items.map (map g h)) := fold_arr (mapAlg g h) items

theorem map_obj (g : ν → ν') (h : κ → κ) (fields : List (κ × Json ν κ)) :
    map g h (.obj fields) = .obj (fields.map (Prod.map h (map g h))) := by
  have hfields : (fields.map (Prod.map id (map g h))).map (Prod.map h id) = fields.map (Prod.map h (map g h)) := by
    rw [List.map_map]
    rfl
  rw [← hfields]
  exact fold_obj (mapAlg g h) fields

theorem map_id (v : Json ν κ) : map id id v = v := by
  induction v using Json.induct with
  | null => rfl
  | bool b => rfl
  | num n => rfl
  | str s => rfl
  | arr items ih => rw [map_arr, List.map_congr_left ih, List.map_id']
  | obj fields ih =>
    have hfields : fields.map (Prod.map id (map id id)) = fields.map id :=
      List.map_congr_left fun p hp => Prod.ext rfl (ih p hp)
    rw [map_obj, hfields, List.map_id]

theorem numbers_map (g : ν → ν') (h : κ → κ) (v : Json ν κ) : (map g h v).numbers = v.numbers.map g := by
  induction v using Json.induct with
  | null => rfl
  | bool b => rfl
  | num n => rfl
  | str s => rfl
  | arr items ih =>
    rw [map_arr, numbers, numbers, fold_arr, fold_arr, List.map_map]
    show (items.map _).flatten = ((items.map _).flatten).map g
    rw [List.map_flatten, List.map_map]
    exact congrArg List.flatten (List.map_congr_left ih)
  | obj fields ih =>
    rw [map_obj, numbers, numbers, fold_obj, fold_obj, List.map_map]
    show (fields.map _).flatMap Prod.snd = ((fields.map _).flatMap Prod.snd).map g
    rw [List.flatMap_def, List.flatMap_def, List.map_flatten, List.map_map, List.map_map, List.map_map]
    exact congrArg List.flatten (List.map_congr_left ih)

theorem depth_map (g : ν → ν') (h : κ → κ) (v : Json ν κ) : (map g h v).depth = v.depth := by
  induction v using Json.induct with
  | null => rfl
  | bool b => rfl
  | num n => rfl
  | str s => rfl
  | arr items ih =>
    rw [map_arr, depth, depth, fold_arr, fold_arr, List.map_map]
    exact congrArg (fun l => List.foldr max 0 l + 1) (List.map_congr_left ih)
  | obj fields ih =>
    rw [map_obj, depth, depth, fold_obj, fold_obj, List.map_map]
    show ((fields.map _).map Prod.snd).foldr max 0 + 1 = ((fields.map _).map Prod.snd).foldr max 0 + 1
    rw [List.map_map, List.map_map]
    exact congrArg (fun l => List.foldr max 0 l + 1) (List.map_congr_left ih)

/-! ## What a value means -/

variable [LinearOrder κ]

def canonAlg (g : ν → ν') (h : κ → κ) : Alg ν κ (Json ν' κ) where
  null := .null
  bool := .bool
  num n := .num (g n)
  str s := .str (h s)
  arr := .arr
  obj fields := .obj (collect (fields.map (Prod.map h id)))

/-- The members are in order, one for each key, and the numbers and the strings are mapped. -/
def canon (g : ν → ν') (h : κ → κ) : Json ν κ → Json ν' κ := fold (canonAlg g h)

section Canon

variable (g : ν → ν') (h : κ → κ)

theorem canon_arr (items : List (Json ν κ)) : canon g h (.arr items) = .arr (items.map (canon g h)) :=
  fold_arr (canonAlg g h) items

/-- The members that count, with their keys mapped. -/
def kept (h : κ → κ) (fields : List (κ × Json ν κ)) : List (κ × Json ν κ) := collect (fields.map (Prod.map h id))

theorem canon_obj (fields : List (κ × Json ν κ)) :
    canon g h (.obj fields) = .obj ((kept h fields).map (Prod.map id (canon g h))) := by
  have hswap : (fields.map (Prod.map id (canon g h))).map (Prod.map h id) =
      (fields.map (Prod.map h id)).map (Prod.map id (canon g h)) := by
    simp only [List.map_map]
    rfl
  rw [canon, fold_obj, kept, map_collect]
  exact congrArg (fun l => obj (collect l)) hswap

theorem mem_kept {p : κ × Json ν κ} {fields : List (κ × Json ν κ)} (hp : p ∈ kept h fields) :
    ∃ k, (k, p.2) ∈ fields ∧ p.1 = h k := by
  obtain ⟨⟨k, v⟩, hmem, rfl⟩ := List.mem_map.mp (mem_of_mem_collect hp)
  exact ⟨k, hmem, rfl⟩

theorem increasing_kept (fields : List (κ × Json ν κ)) : Increasing (kept h fields) := increasing_collect _

theorem kept_id {fields : List (κ × Json ν κ)} (hfields : Increasing fields) : kept id fields = fields := by
  have hmap : fields.map (Prod.map id id) = fields := List.map_id fields
  rw [kept, hmap, collect_of_increasing hfields]

/-- **A second pass** that leaves the strings alone maps the numbers. -/
theorem canon_comp (g' : ν' → ν'') (v : Json ν κ) : canon g' id (canon g h v) = canon (g' ∘ g) h v := by
  induction v using Json.induct with
  | null => rfl
  | bool b => rfl
  | num n => rfl
  | str s => rfl
  | arr items ih =>
    rw [canon_arr, canon_arr, canon_arr, List.map_map]
    exact congrArg arr (List.map_congr_left ih)
  | obj fields ih =>
    rw [canon_obj, canon_obj, canon_obj, kept_id (increasing_map _ (increasing_kept h fields)), List.map_map]
    refine congrArg obj (List.map_congr_left fun p hp => ?_)
    obtain ⟨k, hmem, -⟩ := mem_kept h hp
    exact Prod.ext rfl (ih (k, p.2) hmem)

/-- The meaning of a value that has been mapped. -/
theorem canon_map (g' : ν' → ν'') (h' : κ → κ) (v : Json ν κ) :
    canon g' h' (map g h v) = canon (g' ∘ g) (h' ∘ h) v := by
  induction v using Json.induct with
  | null => rfl
  | bool b => rfl
  | num n => rfl
  | str s => rfl
  | arr items ih =>
    rw [map_arr, canon_arr, canon_arr, List.map_map]
    exact congrArg arr (List.map_congr_left ih)
  | obj fields ih =>
    have hkept : kept h' (fields.map (Prod.map h (map g h))) =
        (kept (h' ∘ h) fields).map (Prod.map id (map g h)) := by
      rw [kept, kept, map_collect, List.map_map, List.map_map]
      rfl
    rw [map_obj, canon_obj, canon_obj, hkept, List.map_map]
    refine congrArg obj (List.map_congr_left fun p hp => Prod.ext rfl ?_)
    obtain ⟨k, hmem, -⟩ := mem_kept (h' ∘ h) hp
    exact ih (k, p.2) hmem

theorem mem_numbers_canon {n : ν'} {v : Json ν κ} (hn : n ∈ (canon g h v).numbers) : ∃ m ∈ v.numbers, n = g m := by
  induction v using Json.induct with
  | null => cases hn
  | bool b => cases hn
  | num m => exact ⟨m, List.mem_singleton.mpr rfl, List.mem_singleton.mp hn⟩
  | str s => cases hn
  | arr items ih =>
    rw [canon_arr, mem_numbers_arr] at hn
    obtain ⟨w, hw, hn⟩ := hn
    obtain ⟨v, hv, rfl⟩ := List.mem_map.mp hw
    obtain ⟨m, hm, rfl⟩ := ih v hv hn
    exact ⟨m, mem_numbers_arr.mpr ⟨v, hv, hm⟩, rfl⟩
  | obj fields ih =>
    rw [canon_obj, mem_numbers_obj] at hn
    obtain ⟨q, hq, hn⟩ := hn
    obtain ⟨p, hp, rfl⟩ := List.mem_map.mp hq
    obtain ⟨k, hmem, -⟩ := mem_kept h hp
    obtain ⟨m, hm, rfl⟩ := ih (k, p.2) hmem hn
    exact ⟨m, mem_numbers_obj.mpr ⟨_, hmem, hm⟩, rfl⟩

theorem mem_strings_canon {s : κ} {v : Json ν κ} (hs : s ∈ (canon g h v).strings) : ∃ t ∈ v.strings, s = h t := by
  induction v using Json.induct with
  | null => cases hs
  | bool b => cases hs
  | num m => cases hs
  | str t => exact ⟨t, List.mem_singleton.mpr rfl, List.mem_singleton.mp hs⟩
  | arr items ih =>
    rw [canon_arr, mem_strings_arr] at hs
    obtain ⟨w, hw, hs⟩ := hs
    obtain ⟨v, hv, rfl⟩ := List.mem_map.mp hw
    obtain ⟨t, ht, rfl⟩ := ih v hv hs
    exact ⟨t, mem_strings_arr.mpr ⟨v, hv, ht⟩, rfl⟩
  | obj fields ih =>
    rw [canon_obj, mem_strings_obj] at hs
    obtain ⟨q, hq, hs⟩ := hs
    obtain ⟨p, hp, rfl⟩ := List.mem_map.mp hq
    obtain ⟨k, hmem, hk⟩ := mem_kept h hp
    rcases hs with rfl | hs
    · exact ⟨k, mem_strings_obj.mpr ⟨_, hmem, .inl rfl⟩, hk⟩
    · obtain ⟨t, ht, rfl⟩ := ih (k, p.2) hmem hs
      exact ⟨t, mem_strings_obj.mpr ⟨_, hmem, .inr ht⟩, rfl⟩

theorem depth_canon_le {v : Json ν κ} : ∀ {m : Nat}, v.depth ≤ m → (canon g h v).depth ≤ m := by
  induction v using Json.induct with
  | null => exact id
  | bool b => exact id
  | num n => exact id
  | str s => exact id
  | arr items ih =>
    intro m hm
    cases m with
    | zero => simp [depth, fold_arr, depthAlg] at hm
    | succ m =>
      rw [depth_arr_le] at hm
      rw [canon_arr, depth_arr_le]
      intro w hw
      obtain ⟨v, hv, rfl⟩ := List.mem_map.mp hw
      exact ih v hv (hm v hv)
  | obj fields ih =>
    intro m hm
    cases m with
    | zero => simp [depth, fold_obj, depthAlg] at hm
    | succ m =>
      rw [depth_obj_le] at hm
      rw [canon_obj, depth_obj_le]
      intro q hq
      obtain ⟨p, hp, rfl⟩ := List.mem_map.mp hq
      obtain ⟨k, hmem, -⟩ := mem_kept h hp
      exact ih (k, p.2) hmem (hm _ hmem)

end Canon

section Fixed

variable {g : ν → ν} {h : κ → κ}

/-- The numbers and the strings of a value are left alone. -/
structure Fixed (g : ν → ν) (h : κ → κ) (v : Json ν κ) : Prop where
  numbers : ∀ n ∈ v.numbers, g n = n
  strings : ∀ s ∈ v.strings, h s = s

/-- Maps that agree on the strings. -/
theorem canon_congr {g : ν → ν'} {h' : κ → κ} {v : Json ν κ} (hh : ∀ s ∈ v.strings, h s = h' s) :
    canon g h v = canon g h' v := by
  induction v using Json.induct with
  | null => rfl
  | bool b => rfl
  | num n => rfl
  | str s => exact congrArg str (hh s (List.mem_singleton.mpr rfl))
  | arr items ih =>
    rw [canon_arr, canon_arr]
    refine congrArg arr (List.map_congr_left fun v hv => ih v hv fun s hs => ?_)
    exact hh s (mem_strings_arr.mpr ⟨v, hv, hs⟩)
  | obj fields ih =>
    have hkept : kept h fields = kept h' fields := by
      have hmap : fields.map (Prod.map h id) = fields.map (Prod.map h' id) := List.map_congr_left fun p hp =>
        Prod.ext (hh p.1 (mem_strings_obj.mpr ⟨p, hp, .inl rfl⟩)) rfl
      rw [kept, kept, hmap]
    rw [canon_obj, canon_obj, hkept]
    refine congrArg obj (List.map_congr_left fun p hp => Prod.ext rfl ?_)
    obtain ⟨k, hmem, -⟩ := mem_kept h' hp
    exact ih (k, p.2) hmem fun s hs => hh s (mem_strings_obj.mpr ⟨_, hmem, .inr hs⟩)

/-- Members with keys that are left alone. -/
theorem kept_of_fixed {fields : List (κ × Json ν κ)} (hkeys : ∀ p ∈ fields, h p.1 = p.1) :
    kept h fields = kept id fields := by
  have hmap : fields.map (Prod.map h id) = fields.map (Prod.map id id) :=
    List.map_congr_left fun p hp => Prod.ext (hkeys p hp) rfl
  rw [kept, kept, hmap]

/-- Every key is the key of a member that counts. -/
theorem exists_mem_kept {p : κ × Json ν κ} {fields : List (κ × Json ν κ)} (hp : p ∈ fields) :
    ∃ v, (h p.1, v) ∈ kept h fields := by
  have hkeys : ∀ l : List (κ × Json ν κ), ∀ q ∈ l, ∃ v, (q.1, v) ∈ collect l := by
    intro l
    induction l using List.reverseRecOn with
    | nil => exact fun q hq => by cases hq
    | append_singleton l r ih =>
      intro q hq
      rw [collect_append]
      by_cases hqr : q.1 = r.1
      · exact ⟨r.2, mem_of_get (by rw [get_setKey, if_pos hqr])⟩
      · rcases List.mem_append.mp hq with hq | hq
        · obtain ⟨v, hv⟩ := ih q hq
          refine ⟨v, mem_of_get ?_⟩
          rw [get_setKey, if_neg hqr, get_of_mem (increasing_collect l) hv]
        · exact absurd (congrArg Prod.fst (List.mem_singleton.mp hq)) hqr
  exact hkeys (fields.map (Prod.map h id)) (h p.1, p.2) (List.mem_map.mpr ⟨p, hp, rfl⟩)

/-- A value whose meaning is fixed means the same after the maps. -/
theorem canon_of_fixed {v : Json ν κ} (hv : Fixed g h (canon id id v)) : canon g h v = canon id id v := by
  induction v using Json.induct with
  | null => rfl
  | bool b => rfl
  | num n => exact congrArg num (hv.numbers n (List.mem_singleton.mpr rfl))
  | str s => exact congrArg str (hv.strings s (List.mem_singleton.mpr rfl))
  | arr items ih =>
    rw [canon_arr, canon_arr]
    rw [canon_arr] at hv
    refine congrArg arr (List.map_congr_left fun v hmem => ih v hmem ⟨fun n hn => ?_, fun s hs => ?_⟩)
    · exact hv.numbers n (mem_numbers_arr.mpr ⟨_, List.mem_map_of_mem hmem, hn⟩)
    · exact hv.strings s (mem_strings_arr.mpr ⟨_, List.mem_map_of_mem hmem, hs⟩)
  | obj fields ih =>
    rw [canon_obj] at hv
    have hkeys : ∀ p ∈ fields, h p.1 = p.1 := by
      intro p hp
      obtain ⟨v, hmem⟩ := exists_mem_kept (h := id) hp
      exact hv.strings p.1 (mem_strings_obj.mpr ⟨_, List.mem_map_of_mem hmem, .inl rfl⟩)
    rw [canon_obj, canon_obj, kept_of_fixed hkeys]
    refine congrArg obj (List.map_congr_left fun p hp => Prod.ext rfl ?_)
    obtain ⟨k, hmem, -⟩ := mem_kept id hp
    refine ih (k, p.2) hmem ⟨fun n hn => ?_, fun s hs => ?_⟩
    · exact hv.numbers n (mem_numbers_obj.mpr ⟨_, List.mem_map_of_mem hp, hn⟩)
    · exact hv.strings s (mem_strings_obj.mpr ⟨_, List.mem_map_of_mem hp, .inr hs⟩)

/-- What comes out of idempotent maps is fixed by them. -/
theorem fixed_canon (hg : ∀ n, g (g n) = g n) (hh : ∀ s, h (h s) = h s) (v : Json ν κ) : Fixed g h (canon g h v) where
  numbers n hn := by
    obtain ⟨m, -, rfl⟩ := mem_numbers_canon g h hn
    exact hg m
  strings s hs := by
    obtain ⟨t, -, rfl⟩ := mem_strings_canon g h hs
    exact hh t

/-- Members of which all keys but one are left alone, and the one as well. -/
theorem kept_of_members {fields : List (κ × Json ν κ)} {k₀ : κ} (hk₀ : h k₀ = k₀)
    (hkeys : ∀ k ≠ k₀, ∀ v, get k ((kept id fields).map (Prod.map id (canon (id : ν → ν) id))) = some v → h k = k) :
    kept h fields = kept id fields := by
  refine kept_of_fixed fun p hp => ?_
  by_cases hp₀ : p.1 = k₀
  · rw [hp₀, hk₀]
  · obtain ⟨v, hmem⟩ := exists_mem_kept (h := id) hp
    have hmeant : (p.1, canon id id v) ∈ (kept id fields).map (Prod.map id (canon (id : ν → ν) id)) :=
      List.mem_map.mpr ⟨_, hmem, rfl⟩
    exact hkeys p.1 hp₀ _ (get_of_mem (increasing_map _ (increasing_kept id fields)) hmeant)

/-- **The members of an object one by one**: those of all keys but one mean the same after the maps exactly when they
and their keys are left alone. -/
theorem get_kept_iff (hg : ∀ n, g (g n) = g n) (hh : ∀ s, h (h s) = h s) {fields : List (κ × Json ν κ)} {k₀ : κ}
    (hk₀ : h k₀ = k₀) :
    (∀ k ≠ k₀, get k ((kept h fields).map (Prod.map id (canon g h))) =
        get k ((kept id fields).map (Prod.map id (canon id id)))) ↔
      ∀ k ≠ k₀, ∀ v, get k ((kept id fields).map (Prod.map id (canon id id))) = some v → h k = k ∧ Fixed g h v := by
  constructor
  · intro heq k hk v hv
    rw [← heq k hk] at hv
    obtain ⟨⟨k', w⟩, hmem, hkw⟩ := List.mem_map.mp (mem_of_get hv)
    obtain ⟨k'', -, hk''⟩ := mem_kept h hmem
    cases hkw
    refine ⟨?_, fixed_canon hg hh w⟩
    show h k' = k'
    rw [show k' = h k'' from hk'', hh]
  · intro hfixed k hk
    rw [kept_of_members hk₀ fun k hk v hv => (hfixed k hk v hv).1, get_map, get_map]
    cases hv : get k (kept id fields) with
    | none => rfl
    | some v =>
      have hmeans := hfixed k hk (canon id id v) (by rw [get_map, hv]; rfl)
      exact congrArg some (canon_of_fixed hmeans.2)

end Fixed

end Json

end LaManchaland
