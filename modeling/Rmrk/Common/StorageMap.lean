import Mathlib.Logic.Function.Basic
/-!
# Storage maps

A storage map holds at most one value a key. Nothing here is about an
order on the keys: what a map with an iteration looks like is the
business of the map that has one.
-/

/-- A map from keys to values, partial. -/
abbrev StorageMap (K V : Type) := K → Option V

namespace StorageMap

variable {K K₁ K₂ V : Type} [DecidableEq K] [DecidableEq K₁]

/-- Put a value under a key, over whatever was there. -/
def insert (m : StorageMap K V) (k : K) (v : V) : StorageMap K V :=
  Function.update m k (some v)

/-- Take a key out. -/
def remove (m : StorageMap K V) (k : K) : StorageMap K V :=
  Function.update m k none

/-- Change the value under a key, where there is one. -/
def mutate (m : StorageMap K V) (k : K) (f : V → V) : StorageMap K V :=
  Function.update m k ((m k).map f)

/-- Take out every key that starts with `k`. -/
def removePrefix (m : StorageMap (K₁ × K₂) V) (k : K₁) : StorageMap (K₁ × K₂) V :=
  fun q => if q.1 = k then none else m q

variable {m : StorageMap K V} {k q : K} {v : V} {f : V → V}

theorem insert_apply : m.insert k v q = if q = k then some v else m q := by
  simp [insert, Function.update_apply]

theorem remove_apply : m.remove k q = if q = k then none else m q := by
  simp [remove, Function.update_apply]

theorem mutate_apply : m.mutate k f q = if q = k then (m k).map f else m q := by
  simp [mutate, Function.update_apply]

@[simp] theorem insert_self : m.insert k v k = some v := by simp [insert_apply]

@[simp] theorem insert_of_ne (h : q ≠ k) : m.insert k v q = m q := by simp [insert_apply, h]

@[simp] theorem remove_self : m.remove k k = none := by simp [remove_apply]

@[simp] theorem remove_of_ne (h : q ≠ k) : m.remove k q = m q := by simp [remove_apply, h]

@[simp] theorem mutate_self : m.mutate k f k = (m k).map f := by simp [mutate_apply]

@[simp] theorem mutate_of_ne (h : q ≠ k) : m.mutate k f q = m q := by simp [mutate_apply, h]

theorem remove_eq_none (h : m q = none) : m.remove k q = none := by
  rw [remove_apply, h, ite_self]

/-- A change of values changes no key's presence. -/
theorem mutate_eq_none_iff : m.mutate k f q = none ↔ m q = none := by
  rw [mutate_apply]
  split
  · next h => subst h; simp
  · rfl

theorem isSome_insert : (m.insert k v q).isSome = true ↔ (m q).isSome = true ∨ q = k := by
  rw [insert_apply]
  split
  · next h => simp [h]
  · next h => simp [h]

/-! What is under a key after a write was written, or was there before. -/

theorem insert_eq_some_iff {u : V} :
    m.insert k v q = some u ↔ q = k ∧ v = u ∨ q ≠ k ∧ m q = some u := by
  rw [insert_apply]
  split
  · next h => simp [h]
  · next h => simp [h]

theorem remove_eq_some_iff : m.remove k q = some v ↔ q ≠ k ∧ m q = some v := by
  rw [remove_apply]
  split
  · next h => simp [h]
  · next h => simp [h]

theorem exists_of_mutate_eq_some (h : m.mutate k f q = some v) :
    ∃ u, m q = some u ∧ (v = u ∨ v = f u) := by
  rw [mutate_apply] at h
  split at h
  · next hq =>
      obtain ⟨u, hu, rfl⟩ := Option.map_eq_some_iff.1 h
      exact ⟨u, hq ▸ hu, .inr rfl⟩
  · exact ⟨v, h, .inl rfl⟩

theorem removePrefix_apply {m : StorageMap (K₁ × K₂) V} {k : K₁} {q : K₁ × K₂} :
    m.removePrefix k q = if q.1 = k then none else m q := rfl

end StorageMap
