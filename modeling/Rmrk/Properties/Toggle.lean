import Rmrk.Properties.Soundness
/-!
# `equip` toggles one slot

Nothing in `do_equip` looks at whether the slot it fills is empty. It is:
a slot that is filled is emptied for the root owner of either NFT, and
only who is both of these gets as far as filling one.
-/

namespace Rmrk

variable {W : Type} [Config W] {s s' : State W} {o : AccountId} {item equipper : NftKey}
variable {k : NftKey × BaseId × SlotId} {r : ResourceId} {b : BaseId} {sl : SlotId} {e : Bool}

/-- **The slot `k` has been toggled with `item`**, and `e` says which way:
filled with `r` where it was empty, and else emptied. Nothing else has
been written. -/
structure Toggled (item : NftKey) (k : NftKey × BaseId × SlotId) (r : ResourceId) (e : Bool)
    (s s' : State W) : Prop where
  reported : e = true ↔ s.equippings k = none
  filled : e = true → s'.equippings k = some r ∧ ∃ nft, s.nfts item = some nft ∧
    s'.nfts item = some { nft with equipped := true }
  emptied : e = false → s'.equippings k = none ∧
    s'.nfts item = (s.nfts item).map fun nft => { nft with equipped := false }
  slots : ∀ q, q ≠ k → s'.equippings q = s.equippings q
  records : ∀ y, y ≠ item → s'.nfts y = s.nfts y
  rest : s' = { s with equippings := s'.equippings, nfts := s'.nfts }

omit [Config W] in
/-- What is written over the slot and the flag touches nothing else. -/
theorem toggled_wired {v : Option ResourceId} (hv : v = if e then some r else none)
    (hempty : e = true ↔ s.equippings k = none) (hitem : e = true → (s.nfts item).isSome = true) :
    Toggled item k r e s (Equip.wired s item k v) where
  reported := hempty
  filled he := by
    obtain ⟨nft, hnft⟩ := Option.isSome_iff_exists.1 (hitem he)
    subst hv he
    exact ⟨Function.update_self .., nft, hnft, by simp [Equip.wired, hnft]⟩
  emptied he := by
    subst hv he
    exact ⟨Function.update_self .., by simp [Equip.wired]⟩
  slots _ hq := Function.update_of_ne hq ..
  records _ hy := StorageMap.mutate_of_ne hy
  rest := rfl

/-- **A successful `do_equip` toggles one slot and nothing else.** -/
theorem equip_toggles (h : Equip.doEquip o item equipper r b sl s = .ok e s') :
    Toggled item (equipper, b, sl) r e s s' := by
  obtain ⟨-, ⟨rfl, rfl, hfilled, -⟩ | ⟨rfl, rfl, hempty, hchecked, -⟩⟩ := Equip.doEquip_writes h
  · have hnone : s.equippings (equipper, b, sl) ≠ none := fun hnone => by simp [hnone] at hfilled
    exact toggled_wired rfl (iff_of_false Bool.false_ne_true hnone) fun he => by cases he
  · obtain ⟨nft, hnft, -⟩ := hchecked.record
    exact toggled_wired rfl (iff_of_true rfl hempty) fun _ => by simp [hnft]

namespace Mock

/-- Alice equips the one of her NFTs with the other, and the empty slot is
filled. -/
theorem toggled_fitting : ∃ s', Toggled (0, 1) ((0, 0), 0, 1) 0 true (replay fitting) s' := by
  obtain ⟨s', h⟩ := exists_of_reports (m := Equip.doEquip alice (0, 1) (0, 0) 0 0 1)
    (s := replay fitting) (by decide +kernel)
  exact ⟨s', equip_toggles h⟩

end Mock

end Rmrk
