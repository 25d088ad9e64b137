import Rmrk.Common.Counter
import Rmrk.Helpers.Register
/-!
# Collections are numbered in turn

The next number and the next identifiers only go up, and no collection
counts more NFTs than it has issued identifiers: a mint adds one to both,
and a burn takes one off the count alone.
-/

namespace Rmrk

open Counter

variable {W : Type} [Config W] {s s' : State W} {act : Act W} {c : CollectionId}

/-- **The register of a reachable state.** Collections are numbered in
turn, what has no number yet has issued nothing, and no collection counts
more than it has issued. -/
structure Orderly (s : State W) : Prop where
  numbered : ∀ c col, s.collections c = some col → c.toNat < s.collectionIndex.toNat
  fresh : ∀ c, s.collectionIndex.toNat ≤ c.toNat → s.nextNftId c = 0
  count : ∀ c col, s.collections c = some col →
    col.nftsCount.toNat ≤ (s.nextNftId c).toNat

omit [Config W] in
/-- The next identifier of a collection after a mint. -/
theorem Counting.next (h : Counting c s s') (d : CollectionId) :
    (s'.nextNftId d).toNat = (s.nextNftId d).toNat + if d = c then 1 else 0 := by
  rw [h.nextNftId]
  by_cases hd : d = c
  · subst hd
    rw [Function.update_self, if_pos rfl, toNat_succ_of_room h.room]
  · rw [Function.update_of_ne hd, if_neg hd, Nat.add_zero]

theorem Orderly.step (hs : Orderly s) (hstep : Step s act s') : Orderly s' := by
  -- a collection written over is one that was there, with no greater count
  have hkeep : s'.collectionIndex = s.collectionIndex → s'.nextNftId = s.nextNftId →
      (∀ c col', s'.collections c = some col' →
        ∃ col, s.collections c = some col ∧ col'.nftsCount.toNat ≤ col.nftsCount.toNat) →
      Orderly s' := by
    intro hindex hnext hcols
    refine ⟨fun c col' hcol' => ?_, fun c hc => ?_, fun c col' hcol' => ?_⟩
    · obtain ⟨col, hcol, -⟩ := hcols c col' hcol'
      exact hindex ▸ hs.numbered c col hcol
    · rw [hnext]
      exact hs.fresh c (hindex ▸ hc)
    · obtain ⟨col, hcol, hle⟩ := hcols c col' hcol'
      rw [hnext]
      exact hle.trans (hs.count c col hcol)
  rcases hstep.registered.split with ⟨c, -, h⟩ | ⟨-, h⟩ | ⟨x, -, h⟩ | ⟨-, h⟩
  · -- a mint
    obtain ⟨col, hcol, -, hroom, hcols⟩ := h.collections
    refine ⟨fun d col' hcol' => ?_, fun d hd => ?_, fun d col' hcol' => ?_⟩
    · rw [h.collectionIndex]
      rw [hcols] at hcol'
      rcases StorageMap.insert_eq_some_iff.1 hcol' with ⟨rfl, -⟩ | ⟨-, hcol'⟩
      · exact hs.numbered d col hcol
      · exact hs.numbered d col' hcol'
    · rw [h.collectionIndex] at hd
      have hdc : d ≠ c := by
        rintro rfl
        have := hs.numbered d col hcol
        omega
      rw [h.nextNftId, Function.update_of_ne hdc]
      exact hs.fresh d hd
    · rw [h.next]
      rw [hcols] at hcol'
      rcases StorageMap.insert_eq_some_iff.1 hcol' with ⟨rfl, rfl⟩ | ⟨hd, hcol'⟩
      · have := hs.count d col hcol
        rw [if_pos rfl]
        simpa [toNat_succ_of_room hroom] using this
      · rw [if_neg hd]
        exact hs.count d col' hcol'
  · -- a new collection
    obtain ⟨col, hzero, hcols⟩ := h.collections
    have hsucc : s'.collectionIndex.toNat = s.collectionIndex.toNat + 1 := by
      rw [h.collectionIndex, toNat_succ h.room]
    refine ⟨fun d col' hcol' => ?_, fun d hd => ?_, fun d col' hcol' => ?_⟩
    · rw [hcols] at hcol'
      rcases StorageMap.insert_eq_some_iff.1 hcol' with ⟨rfl, -⟩ | ⟨-, hcol'⟩
      · omega
      · have := hs.numbered d col' hcol'
        omega
    · rw [h.presence.nextNftId]
      exact hs.fresh d (by omega)
    · rw [h.presence.nextNftId]
      rw [hcols] at hcol'
      rcases StorageMap.insert_eq_some_iff.1 hcol' with ⟨-, rfl⟩ | ⟨-, hcol'⟩
      · rw [hzero]
        exact Nat.zero_le _
      · exact hs.count d col' hcol'
  · -- a burn
    obtain ⟨l, -, hcount, -⟩ := h.tallied
    refine hkeep h.collectionIndex h.nextNftId fun d col' hcol' => ?_
    rw [hcount.collections, Option.map_eq_some_iff] at hcol'
    obtain ⟨col, hcol, rfl⟩ := hcol'
    refine ⟨col, hcol, ?_⟩
    simp only [CollectionInfo.less, toNat_iterate_saturatingDec]
    omega
  · refine hkeep h.collectionIndex h.presence.nextNftId fun d col' hcol' => ?_
    obtain ⟨col, hcol, hcount, -⟩ := h.collections d col' hcol'
    exact ⟨col, hcol, by rw [hcount]⟩

/-- **The register of every reachable state is in order.** -/
theorem Reachable.orderly (h : Reachable s) : Orderly s := by
  refine h.invariant (fun s h0 => ?_) fun _ _ _ _ hs hstep => hs.step hstep
  obtain ⟨w, -, -, rfl⟩ := h0
  exact ⟨by simp [genesis], fun _ _ => rfl, by simp [genesis]⟩

end Rmrk
