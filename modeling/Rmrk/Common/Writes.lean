import Rmrk.Common.Effect
import Rmrk.Common.StorageMap
/-!
# Writes in a row

A loop that puts one entry after the other into a storage map leaves under
a key what it put there last, and what was there where it put nothing. A
map with an iteration is kept as the list of its entries, and is a storage
map to whoever looks a key up.
-/

variable {K V : Type} [DecidableEq K]

namespace StorageMap

variable {m : StorageMap K V} {q : K} {v : V} {es es₁ es₂ : List (K × V)}

/-- Put entries in, the last over the first. -/
def insertAll (m : StorageMap K V) (es : List (K × V)) : StorageMap K V :=
  es.foldl (fun m e => m.insert e.1 e.2) m

/-- What nothing is put under stays. -/
theorem insertAll_of_ne (h : ∀ e ∈ es, e.1 ≠ q) : insertAll m es q = m q := by
  unfold insertAll
  induction es generalizing m with
  | nil => rfl
  | cons e es ih =>
      rw [List.foldl_cons, ih fun e' he' => h e' (List.mem_cons_of_mem e he'),
        insert_of_ne (h e List.mem_cons_self).symm]

/-- **The last write wins.** -/
theorem insertAll_of_last (h : ∀ e ∈ es₂, e.1 ≠ q) :
    insertAll m (es₁ ++ (q, v) :: es₂) q = some v := by
  have hrest := insertAll_of_ne (m := (insertAll m es₁).insert q v) h
  rw [insert_self] at hrest
  rw [insertAll, List.foldl_append]
  exact hrest

/-! What is under a key depends on what was under that key. -/

theorem update_congr {f g : K → V} {k : K} {v' : V} (hv : q = k → v = v') (hq : f q = g q) :
    Function.update f k v q = Function.update g k v' q := by
  by_cases hk : q = k
  · subst hk
    rw [Function.update_self, Function.update_self, hv rfl]
  · rw [Function.update_of_ne hk, Function.update_of_ne hk, hq]

theorem insertAll_congr {m' : StorageMap K V} (h : m q = m' q) :
    insertAll m es q = insertAll m' es q := by
  unfold insertAll
  induction es generalizing m m' with
  | nil => exact h
  | cons e es ih =>
      refine ih ?_
      simp only [insert_apply, h]

/-- A key that is written is written last somewhere. -/
theorem exists_last (h : ∃ e ∈ es, e.1 = q) :
    ∃ es₁ v es₂, es = es₁ ++ (q, v) :: es₂ ∧ ∀ e ∈ es₂, e.1 ≠ q := by
  induction es with
  | nil => simp at h
  | cons e es ih =>
      by_cases hlater : ∃ e' ∈ es, e'.1 = q
      · obtain ⟨es₁, v, es₂, rfl, hlast⟩ := ih hlater
        exact ⟨e :: es₁, v, es₂, rfl, hlast⟩
      · obtain ⟨e', he', rfl⟩ := h
        rcases List.mem_cons.1 he' with rfl | hmem
        · exact ⟨[], e'.2, es, rfl, fun e'' he'' hq => hlater ⟨e'', he'', hq⟩⟩
        · exact absurd ⟨e', hmem, rfl⟩ hlater

/-- What is under a key was put there, or nothing was. -/
theorem insertAll_apply (m : StorageMap K V) (es : List (K × V)) (q : K) :
    (∃ v, (q, v) ∈ es ∧ insertAll m es q = some v) ∨
      (∀ e ∈ es, e.1 ≠ q) ∧ insertAll m es q = m q := by
  by_cases hq : ∃ e ∈ es, e.1 = q
  · obtain ⟨es₁, v, es₂, rfl, hlast⟩ := exists_last hq
    exact .inl ⟨v, by simp, insertAll_of_last hlast⟩
  · have hne : ∀ e ∈ es, e.1 ≠ q := fun e he heq => hq ⟨e, he, heq⟩
    exact .inr ⟨hne, insertAll_of_ne hne⟩

/-- Nothing is taken out. -/
theorem isSome_insertAll : (insertAll m es q).isSome = true ↔
    (m q).isSome = true ∨ ∃ e ∈ es, e.1 = q := by
  rcases insertAll_apply m es q with ⟨v, hmem, hq⟩ | ⟨hne, hq⟩
  · rw [hq]
    exact iff_of_true rfl (.inr ⟨_, hmem, rfl⟩)
  · have hnone : ¬ ∃ e ∈ es, e.1 = q := fun ⟨e, he, heq⟩ => hne e he heq
    rw [hq, or_iff_left hnone]

end StorageMap

namespace Entries

variable {l : List (K × V)} {k q : K} {v : V}

/-- What is under a key. -/
def read (l : List (K × V)) : StorageMap K V := fun q => l.lookup q

/-- Put an entry in, in the place of what was under its key. -/
def put (l : List (K × V)) (e : K × V) : List (K × V) :=
  e :: l.filter fun e' => e'.1 ≠ e.1

theorem isSome_read (h : (k, v) ∈ l) : (read l k).isSome = true := by
  by_contra hnone
  have hall := List.lookup_eq_none_iff.1 (Option.not_isSome_iff_eq_none.1 hnone) _ h
  simp at hall

theorem read_filter {p : K → Bool} :
    read (l.filter fun e => p e.1) k = if p k then read l k else none := by
  unfold read
  induction l with
  | nil => simp
  | cons e l ih =>
      obtain ⟨k', v⟩ := e
      by_cases hk : k = k'
      · subst hk
        by_cases hp : p k = true
        · simp [hp, List.filter_cons_of_pos]
        · rw [List.filter_cons_of_neg (by simpa using hp), ih, if_neg hp, if_neg hp]
      · have hne : (k == k') = false := by simpa using hk
        have hcons : ∀ l : List (K × V), ((k', v) :: l).lookup k = l.lookup k := by
          intro l; simp [List.lookup_cons, hne]
        by_cases hp : p k' = true
        · rw [List.filter_cons_of_pos (by simpa using hp), hcons, hcons, ih]
        · rw [List.filter_cons_of_neg (by simpa using hp), hcons, ih]

/-- **To who reads, `put` is `insert`.** -/
theorem read_put : read (put l (k, v)) = (read l).insert k v := by
  funext q
  by_cases hq : q = k
  · subst hq; simp [put, read]
  · have hne : (q == k) = false := by simpa using hq
    have hrest := read_filter (l := l) (k := q) (p := fun q => decide (q ≠ k))
    rw [if_pos (by simpa using hq)] at hrest
    rw [StorageMap.insert_of_ne hq, ← hrest, read, put, List.lookup_cons, hne]
    rfl

theorem read_foldl_put (es : List (K × V)) : read (es.foldl put l) = (read l).insertAll es :=
  (List.foldl_hom read fun _ _ => read_put.symm).symm

end Entries

namespace Effect

/-- A loop of writes writes what they come to. -/
theorem each_update_ok {ε σ α : Type} {g : α → σ → σ} {as : List α} {s s' : σ} {u : Unit} :
    each (fun a => update (g a)) as s = (.ok u s' : EStateM.Result ε σ Unit) ↔
      as.foldl (fun s a => g a s) s = s' := by
  induction as generalizing s with
  | nil => simp [each]
  | cons a as ih => rw [each, update_bind_ok, ih, List.foldl_cons]

end Effect
