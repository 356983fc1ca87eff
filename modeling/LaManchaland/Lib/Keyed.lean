import Mathlib.Data.List.AList

/-!
# Maps under an encoding of their indices

A map with keys in `K` stands for a map with indices in `P` when every entry is stored under the key of its own index
(`OwnKeys`) and the encoding `key` of the indices is injective; `view key m` is the map that `m` stands for.

`ActsAt k f m m'` says that an operation changes the entry of `k` by `f` and no other entry. Such an operation acts on
the view at the index of `k` alone (`ActsAt.view`), and keeps the entries under their own keys when what `f` stores has
the index of `k` (`ActsAt.ownKeys`).
-/

namespace Keyed

variable {P K V : Type*} [DecidableEq K]

/-- The map on indices that `m` stands for. -/
def view (key : P → K) (m : AList fun _ : K => V) (p : P) : Option V := m.lookup (key p)

/-- Every entry is stored under the key of its own index. -/
def OwnKeys (key : P → K) (index : V → P) (m : AList fun _ : K => V) : Prop :=
  ∀ k v, m.lookup k = some v → k = key (index v)

/-- The entry of `k` is changed by `f`, and no other one. -/
structure ActsAt (k : K) (f : Option V → Option V) (m m' : AList fun _ : K => V) : Prop where
  here : m'.lookup k = f (m.lookup k)
  frame : ∀ k', k' ≠ k → m'.lookup k' = m.lookup k'

section Operations

variable {m m' : AList fun _ : K => V} {k : K} {f : Option V → Option V}

theorem actsAt_insert (v : V) (h : f (m.lookup k) = some v) : ActsAt k f m (m.insert k v) :=
  ⟨by rw [AList.lookup_insert, h], fun _ hk => AList.lookup_insert_ne hk⟩

theorem actsAt_erase (h : f (m.lookup k) = none) : ActsAt k f m (m.erase k) :=
  ⟨by rw [AList.lookup_erase, h], fun _ hk => AList.lookup_erase_ne hk⟩

theorem actsAt_self (h : f (m.lookup k) = m.lookup k) : ActsAt k f m m := ⟨h.symm, fun _ _ => rfl⟩

/-- **The view under an operation**: the entry of the index with the key `k` changes, and no other one. -/
theorem ActsAt.view {key : P → K} [DecidableEq P] (h : ActsAt k f m m') (p : P) :
    view key m' p = if key p = k then f (view key m p) else view key m p := by
  unfold Keyed.view
  split
  · rename_i hp
    rw [hp]
    exact h.here
  · rename_i hp
    exact h.frame _ hp

/-- An operation that stores entries of the index of `k` keeps the entries under their own keys. -/
theorem ActsAt.ownKeys {key : P → K} {index : V → P} (h : ActsAt k f m m') (hm : OwnKeys key index m)
    (hf : ∀ v, f (m.lookup k) = some v → k = key (index v)) : OwnKeys key index m' := by
  intro k' v hv
  by_cases hk : k' = k
  · subst hk
    rw [h.here] at hv
    exact hf v hv
  · rw [h.frame k' hk] at hv
    exact hm k' v hv

/-- What is added and removed again leaves the map as it was. -/
theorem erase_insert (v : V) (h : m.lookup k = none) : (m.insert k v).erase k = m := by
  have hk : k ∉ m := AList.lookup_eq_none.mp h
  refine AList.ext ?_
  show List.kerase k (m.insert k v).entries = m.entries
  rw [AList.entries_insert_of_notMem hk]
  exact List.kerase_cons_eq rfl

end Operations

section Index

variable {key : P → K} {index : V → P} {m : AList fun _ : K => V}

theorem ownKeys_empty : OwnKeys key index (∅ : AList fun _ : K => V) := by
  intro k v h
  rw [AList.lookup_empty] at h
  cases h

/-- Two entries with one index are one entry. -/
theorem OwnKeys.unique (h : OwnKeys key index m) {k k' : K} {v v' : V} (hv : m.lookup k = some v)
    (hv' : m.lookup k' = some v') (he : index v = index v') : k = k' := by
  rw [h k v hv, h k' v' hv', he]

end Index

end Keyed
