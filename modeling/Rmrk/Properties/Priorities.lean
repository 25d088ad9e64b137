import Rmrk.Helpers.Notes
import Rmrk.Mock.Replay
/-!
# `set_priority` stores the order it is given

`priority_set` empties the priorities of an NFT and then writes the index
of each resource in turn, so that one that is in the list twice has the
later. The list is a `BoundedVec` whose bound is a `u32`, so no index wraps
around.
-/

namespace Rmrk

open Effect

variable {W : Type} [Config W] {s s' : State W} {x : NftKey} {o : AccountId} {r : ResourceId}
variable {l l₁ l₂ : List ResourceId} {n : ℕ}

/-- `n` is the last index at which `r` is in `l`. -/
def LastAt (l : List ResourceId) (r : ResourceId) (n : ℕ) : Prop :=
  l[n]? = some r ∧ ∀ m, n < m → l[m]? ≠ some r

/-- No resource of `x` that `q` has comes before one that `r` has. -/
def State.ranks (s : State W) (x : NftKey) (r q : ResourceId) : Bool :=
  decide ((s.priorities (x, r)).getD 0 ≤ (s.priorities (x, q)).getD 0)

/-- **The priorities of `x` are the order `l`**: each resource has the last
index it is in the list at, and sorting what has a priority gives back a
list without repetitions. No other NFT's have changed. -/
structure Prioritised (x : NftKey) (l : List ResourceId) (s s' : State W) : Prop where
  stored : ∀ r i, s'.priorities (x, r) = some i ↔ LastAt l r i.toNat
  absent : ∀ r, r ∉ l → s'.priorities (x, r) = none
  sorted : l.Nodup → ∀ q : List ResourceId, q.Nodup →
    (∀ r, r ∈ q ↔ (s'.priorities (x, r)).isSome = true) → q.mergeSort (s'.ranks x) = l
  others : ∀ y r, y ≠ x → s'.priorities (y, r) = s.priorities (y, r)

/-! ## The last index -/

/-- What comes after the last index does not have `r`. -/
theorem lastAt_iff : LastAt l r n ↔ ∃ l₁ l₂, l = l₁ ++ r :: l₂ ∧ r ∉ l₂ ∧ l₁.length = n := by
  constructor
  · rintro ⟨hr, hlast⟩
    obtain ⟨hn, hr⟩ := List.getElem?_eq_some_iff.1 hr
    refine ⟨l.take n, l.drop (n + 1), ?_, fun hmem => ?_, List.length_take_of_le hn.le⟩
    · rw [← hr, List.cons_getElem_drop_succ, List.take_append_drop]
    · obtain ⟨m, hm⟩ := List.mem_iff_getElem?.1 hmem
      rw [List.getElem?_drop] at hm
      exact hlast (n + 1 + m) (by omega) hm
  · rintro ⟨l₁, l₂, rfl, hr, rfl⟩
    refine ⟨by simp, fun m hm hmem => hr ?_⟩
    rw [List.getElem?_append_right hm.le, List.getElem?_cons] at hmem
    rw [if_neg (by omega)] at hmem
    exact List.mem_of_getElem? hmem

theorem LastAt.lt (h : LastAt l r n) : n < l.length :=
  (List.getElem?_eq_some_iff.1 h.1).1

theorem exists_lastAt (h : r ∈ l) : ∃ n, LastAt l r n := by
  obtain ⟨l₂, l₁, hl, hr⟩ := List.eq_append_cons_of_mem (List.mem_reverse.2 h)
  refine ⟨l₁.reverse.length, lastAt_iff.2 ⟨l₁.reverse, l₂.reverse, ?_, by simpa using hr, rfl⟩⟩
  rw [← List.reverse_inj, hl]
  simp

/-- In a list without repetitions every index is a last one. -/
theorem lastAt_of_nodup (hl : l.Nodup) (h : l[n]? = some r) : LastAt l r n := by
  refine ⟨h, fun m hm hr => ?_⟩
  have hlt := (List.getElem?_eq_some_iff.1 h).1
  exact absurd ((List.getElem?_inj hlt hl).1 (h.trans hr.symm)) hm.ne

/-! ## What is stored -/

namespace Core

/-- **An entry is made of the last index**, whatever is written before. -/
theorem insertAll_ranked {m : StorageMap (NftKey × ResourceId) UInt32} (h : LastAt l r n) :
    m.insertAll (ranked x l 0) (x, r) = some (UInt32.ofNat n) := by
  obtain ⟨l₁, l₂, rfl, hr, rfl⟩ := lastAt_iff.1 h
  rw [ranked, List.zipIdx_append, List.map_append, List.zipIdx_cons, List.map_cons, Nat.zero_add]
  refine StorageMap.insertAll_of_last fun e he heq => hr ?_
  obtain ⟨f, hf, rfl⟩ := List.mem_map.1 he
  have hkey : f.1 = r := congrArg Prod.snd heq
  exact hkey ▸ List.fst_mem_of_mem_zipIdx hf

end Core

section Written

variable (hl : l.length < UInt32.size) (h : s' = { s with
  priorities := (s.priorities.removePrefix x).insertAll (Core.ranked x l 0) })

include h

omit [Config W] in
theorem priorities_of_lastAt (hr : LastAt l r n) :
    s'.priorities (x, r) = some (UInt32.ofNat n) := by
  subst h
  exact Core.insertAll_ranked hr

omit [Config W] in
/-- What is not in the list has lost what it had. -/
theorem priorities_of_notMem (hr : r ∉ l) : s'.priorities (x, r) = none := by
  subst h
  have hkept : ∀ e ∈ Core.ranked x l 0, e.1 ≠ (x, r) := fun e he heq => by
    have hkey : e.1.2 = r := congrArg Prod.snd heq
    exact hr (hkey ▸ (Core.key_of_mem_ranked he).2)
  exact (StorageMap.insertAll_of_ne hkept).trans (by simp [StorageMap.removePrefix_apply])

include hl

omit [Config W] in
/-- Resources are ranked as their last indexes are. -/
theorem ranks_iff {q : ResourceId} {m : ℕ} (hr : LastAt l r n) (hq : LastAt l q m) :
    s'.ranks x r q = true ↔ n ≤ m := by
  rw [State.ranks, priorities_of_lastAt h hr, priorities_of_lastAt h hq, decide_eq_true_iff,
    Option.getD_some, Option.getD_some, UInt32.le_iff_toNat_le,
    UInt32.toNat_ofNat_of_lt' (hr.lt.trans hl), UInt32.toNat_ofNat_of_lt' (hq.lt.trans hl)]

omit [Config W] in
/-- **Sorting by priority gives the list back.** -/
theorem mergeSort_ranks {q : List ResourceId} (hnodup : l.Nodup) (hperm : q.Perm l) :
    q.mergeSort (s'.ranks x) = l := by
  have hsorted : (q.mergeSort (s'.ranks x)).Pairwise fun r q => s'.ranks x r q = true := by
    refine List.pairwise_mergeSort (fun a b c hab hbc => ?_) (fun a b => ?_) q
    · simp only [State.ranks, decide_eq_true_iff] at hab hbc ⊢
      exact UInt32.le_trans hab hbc
    · simp only [State.ranks, Bool.or_eq_true, decide_eq_true_iff]
      exact UInt32.le_total _ _
  have hlist : l.Pairwise fun r q => s'.ranks x r q = true := by
    refine List.pairwise_iff_getElem.2 fun i j hi hj hij => ?_
    exact (ranks_iff hl h (lastAt_of_nodup hnodup (List.getElem?_eq_getElem hi))
      (lastAt_of_nodup hnodup (List.getElem?_eq_getElem hj))).2 hij.le
  have hboth := (List.mergeSort_perm q (s'.ranks x)).trans hperm
  refine hboth.eq_of_pairwise (fun a b ha hb hab hba => ?_) hsorted hlist
  -- two resources of equal rank have the same last index
  obtain ⟨n, hn⟩ := exists_lastAt (hboth.mem_iff.1 ha)
  obtain ⟨m, hm⟩ := exists_lastAt hb
  have heq : n = m := le_antisymm ((ranks_iff hl h hn hm).1 hab) ((ranks_iff hl h hm hn).1 hba)
  subst heq
  exact Option.some.inj (hn.1.symm.trans hm.1)

omit [Config W] in
theorem prioritised_of_writes : Prioritised x l s s' := by
  have hstored : ∀ r i, s'.priorities (x, r) = some i ↔ LastAt l r i.toNat := by
    intro r i
    constructor
    · intro hi
      by_cases hr : r ∈ l
      · obtain ⟨n, hn⟩ := exists_lastAt hr
        rw [priorities_of_lastAt h hn, Option.some.injEq] at hi
        rwa [← hi, UInt32.toNat_ofNat_of_lt' (hn.lt.trans hl)]
      · rw [priorities_of_notMem h hr] at hi
        cases hi
    · intro hi
      rw [priorities_of_lastAt h hi, UInt32.ofNat_toNat]
  have hmem : ∀ r, (s'.priorities (x, r)).isSome = true ↔ r ∈ l := by
    intro r
    by_cases hr : r ∈ l
    · obtain ⟨n, hn⟩ := exists_lastAt hr
      simp [priorities_of_lastAt h hn, hr]
    · simp [priorities_of_notMem h hr, hr]
  refine ⟨hstored, fun r => priorities_of_notMem h, fun hnodup q hq hqmem => ?_, fun y r hy => ?_⟩
  · refine mergeSort_ranks hl h hnodup ((List.perm_ext_iff_of_nodup hq hnodup).2 fun r => ?_)
    rw [hqmem, hmem]
  · subst h
    have hkept : ∀ e ∈ Core.ranked x l 0, e.1 ≠ (y, r) := fun e he heq =>
      hy ((congrArg Prod.fst heq).symm.trans (Core.key_of_mem_ranked he).1)
    exact (StorageMap.insertAll_of_ne hkept).trans (by simp [StorageMap.removePrefix_apply, hy])

end Written

/-- **`set_priority` stores exactly the given order.** -/
theorem setPriority_orders (maxPriorities : UInt32) (hl : l.length ≤ maxPriorities.toNat)
    (h : Core.setPriority o x l s = .ok () s') : Prioritised x l s s' :=
  prioritised_of_writes (lt_of_le_of_lt hl maxPriorities.toNat_lt) (Core.setPriority_writes h).2.2

namespace Mock

/-- Alice orders the resources of an NFT of hers, one of them twice. -/
def reorder : Extrinsic := (alice, .setPriority (0, 0) [7, 5, 7])

theorem prioritised_reordered :
    Prioritised (0, 0) [7, 5, 7] (replay [(alice, mintTo alice), (alice, newCollection)])
      (replay [reorder, (alice, mintTo alice), (alice, newCollection)]) := by
  have hstep : Step (replay [(alice, mintTo alice), (alice, newCollection)])
      (.signed reorder.1 reorder.2)
      (replay [reorder, (alice, mintTo alice), (alice, newCollection)]) :=
    step_apply (e := reorder) (by decide +kernel)
  exact setPriority_orders 25 (by decide) hstep

end Mock

end Rmrk
