import Rmrk.Helpers.Steps
/-!
# Identifiers are issued once

An identifier the collection has not come to yet stands for nothing: it
has no owner, no record, no lock, no listing and no entry in the index.
And whatever has a record has an owner in `pallet_uniques`.
-/

namespace Rmrk

open Effect Relation

variable {W : Type} [Config W] {s s' : State W} {act : Act W} {x z : NftKey} {a : AccountId}

/-- Nothing is known of an NFT, though others may have been sent to it. -/
structure Absent (z : NftKey) (s : State W) : Prop where
  owner : s.owner z = none
  nfts : s.nfts z = none
  lock : s.lock z = false
  listedNfts : s.listedNfts z = none
  unlisted : ∀ a, z ∉ s.children a

/-- The ledgers of a reachable state. -/
structure Sound (s : State W) : Prop where
  absent : ∀ z : NftKey, s.nextNftId z.1 ≤ z.2 → Absent z s
  owned : ∀ z, s.owner z = none → s.nfts z = none

/-- What has not been issued after a mint is not what was minted, and had
not been issued before. -/
theorem Minted.unissued {nft : NftInfo} (h : Minted x a nft s s')
    (hz : s'.nextNftId z.1 ≤ z.2) : z ≠ x ∧ s.nextNftId z.1 ≤ z.2 := by
  have hroom : x.2.toNat + 1 < 4294967296 := h.room
  have hnext := h.next
  rw [h.nextNftId] at hz
  by_cases hc : z.1 = x.1
  · rw [hc, Function.update_self, UInt32.le_iff_toNat_le, UInt32.toNat_add] at hz
    rw [hc, hnext, UInt32.le_iff_toNat_le]
    have hone : (1 : UInt32).toNat = 1 := rfl
    refine ⟨fun hzx => ?_, by omega⟩
    rw [hzx] at hz
    omega
  · rw [Function.update_of_ne hc] at hz
    exact ⟨fun hzx => hc (hzx ▸ rfl), hz⟩

/-- What is minted was not there. -/
theorem Minted.absent {nft : NftInfo} (hs : Sound s) (h : Minted x a nft s s') : Absent x s :=
  hs.absent x (h.next ▸ UInt32.le_refl _)

/-- What is not there is not minted with another. -/
theorem Absent.minted {nft : NftInfo} (h : Minted x a nft s s') (hzx : z ≠ x) (hz : Absent z s) :
    Absent z s' where
  owner := by rw [h.owner, Function.update_of_ne hzx, hz.owner]
  nfts := by rw [h.nfts, StorageMap.insert_of_ne hzx, hz.nfts]
  lock := by rw [h.lock, hz.lock]
  listedNfts := by rw [h.listedNfts, hz.listedNfts]
  unlisted a := by rw [h.children]; exact hz.unlisted a

/-- What has an owner is there. -/
theorem Absent.ne_of_owner (hz : Absent z s) (hx : s.owner x = some a) : z ≠ x := by
  rintro rfl
  simp [hz.owner] at hx

/-- And so is what has a root owner. -/
theorem Absent.ne_of_root (hz : Absent z s) (hx : RootOwner s x a) : z ≠ x := by
  rintro rfl
  have := hx.owner_isSome
  simp [hz.owner] at this

/-- What has a root owner has been issued. -/
theorem RootOwner.issued (hs : Sound s) (hx : RootOwner s x a) : x.2 < s.nextNftId x.1 :=
  UInt32.not_le.1 fun hle => (hs.absent x hle).ne_of_root hx rfl

/-- Nor sent with another. -/
theorem Absent.sent {o old new : AccountId} {newOwner : AccountIdOrCollectionNftTuple}
    {nft nft' : NftInfo} (h : Sent o x newOwner old new nft nft' s s') (hz : Absent z s)
    (hlock : s'.lock z = s.lock z) (hlisted : s'.listedNfts z = s.listedNfts z) : Absent z s' where
  owner := by rw [h.owner, Function.update_of_ne (hz.ne_of_owner h.owner_eq), hz.owner]
  nfts := by rw [h.nfts, StorageMap.insert_of_ne (hz.ne_of_owner h.owner_eq), hz.nfts]
  lock := hlock.trans hz.lock
  listedNfts := hlisted.trans hz.listedNfts
  unlisted a := by
    rw [h.mem_children]
    rintro (⟨rfl, -⟩ | ⟨hza, -⟩)
    · exact hz.ne_of_owner h.owner_eq rfl
    · exact hz.unlisted a hza

theorem Absent.accepted {o new : AccountId} {newOwner : AccountIdOrCollectionNftTuple}
    {nft : NftInfo} (h : Accepted o x newOwner new nft s s') (hz : Absent z s) : Absent z s' where
  owner := by rw [h.owner, Function.update_of_ne (hz.ne_of_root h.root), hz.owner]
  nfts := by rw [h.nfts, StorageMap.insert_of_ne (hz.ne_of_root h.root), hz.nfts]
  lock := by rw [h.lock, hz.lock]
  listedNfts := by rw [h.listedNfts, hz.listedNfts]
  unlisted a := by rw [h.children]; exact hz.unlisted a

theorem Absent.destroyed {q : Option NftKey} (h : Destroyed x q s s') (hz : Absent z s)
    (howner : s'.owner z = none) : Absent z s' where
  owner := howner
  nfts := by
    by_cases hb : Below s x z
    · exact h.nfts_below z hb
    · rw [h.nfts_else z hb, hz.nfts]
  lock := by rw [h.lock, hz.lock]
  listedNfts := by rw [h.listedNfts, hz.listedNfts]
  unlisted a hza := hz.unlisted a ((h.mem_children a z).1 hza).1

theorem Absent.wired {k : NftKey × BaseId × SlotId} {r : Option ResourceId}
    (h : Wired x k r s s') (hz : Absent z s) : Absent z s' where
  owner := by rw [h.owner, hz.owner]
  nfts := by rw [h.nfts, StorageMap.mutate_eq_none_iff, hz.nfts]
  lock := by rw [h.lock, hz.lock]
  listedNfts := by rw [h.listedNfts, hz.listedNfts]
  unlisted a := by rw [h.children]; exact hz.unlisted a

theorem Absent.posted {l : Bool} {info : Option ListInfo} (h : Posted x l info s s')
    (hx : s.owner x = some a) (hz : Absent z s) : Absent z s' where
  owner := by rw [h.owner, hz.owner]
  nfts := by rw [h.nfts, hz.nfts]
  lock := by rw [h.lock, Function.update_of_ne (hz.ne_of_owner hx), hz.lock]
  listedNfts := by rw [h.listedNfts, Function.update_of_ne (hz.ne_of_owner hx), hz.listedNfts]
  unlisted a := by rw [h.children]; exact hz.unlisted a

/-- A step that moves nothing brings nothing. -/
theorem Absent.quiet (h : Quiet s s') (hz : Absent z s) : Absent z s' where
  owner := by rw [h.owner, hz.owner]
  nfts := by rw [h.nfts, hz.nfts]
  lock := by rw [h.lock, hz.lock]
  listedNfts := by rw [h.listedNfts, hz.listedNfts]
  unlisted a := by rw [h.children]; exact hz.unlisted a

/-- A step issues the identifier it mints, and knows of no other new
one. -/
theorem Sound.absent_step (hs : Sound s) (h : Outcome s s' act)
    (hz : s'.nextNftId z.1 ≤ z.2) : Absent z s' := by
  cases h with
  | silent _ h => exact (hs.absent z (h.nextNftId ▸ hz)).quiet h.toQuiet
  | noted _ h => exact (hs.absent z (h.nextNftId ▸ hz)).quiet h.toQuiet
  | mintNft _ _ h =>
      obtain ⟨hzx, hz⟩ := h.unissued hz
      exact (hs.absent z hz).minted h hzx
  | mintNftDirectlyToNft _ _ _ h =>
      obtain ⟨hzx, hz⟩ := h.unissued hz
      exact (hs.absent z hz).minted h hzx
  | send h _ hlist =>
      exact (hs.absent z (h.nextNftId ▸ hz)).sent h (by rw [hlist.lock]) (by rw [hlist.listedNfts])
  | acceptNft h => exact (hs.absent z (h.nextNftId ▸ hz)).accepted h
  | burnNft hroot h howner =>
      have hz := hs.absent z (h.nextNftId ▸ hz)
      exact hz.destroyed h (by rw [howner, Function.update_of_ne (hz.ne_of_root hroot), hz.owner])
  | rejectNft _ _ h howner =>
      have hz := hs.absent z (h.nextNftId ▸ hz)
      exact hz.destroyed h (by rw [howner, hz.owner])
  | unequip h => exact (hs.absent z (h.nextNftId ▸ hz)).wired h
  | equip h => exact (hs.absent z (h.nextNftId ▸ hz)).wired h
  | list howner _ _ h => exact (hs.absent z (h.nextNftId ▸ hz)).posted h howner
  | unlist howner h => exact (hs.absent z (h.nextNftId ▸ hz)).posted h howner
  | buy _ _ _ h hlock hlisted =>
      have hz := hs.absent z (h.nextNftId ▸ hz)
      have hne := hz.ne_of_owner h.owner_eq
      exact hz.sent h (by rw [hlock, Function.update_of_ne hne])
        (by rw [hlisted, StorageMap.remove_of_ne hne])
  | acceptOffer _ h _ hlock hlisted =>
      have hz := hs.absent z (h.nextNftId ▸ hz)
      exact hz.sent h (by rw [hlock, Function.update_of_ne (hz.ne_of_owner h.owner_eq)])
        (by rw [hlisted])

/-- A step takes no owner from an NFT whose record it leaves. -/
theorem Sound.owned_step (hs : Sound s) (h : Outcome s s' act) (hz : s'.owner z = none) :
    s'.nfts z = none := by
  have hput : ∀ {x : NftKey} {new : AccountId} {nft : NftInfo},
      s'.owner = Function.update s.owner x (some new) → s'.nfts = s.nfts.insert x nft →
        s'.nfts z = none := fun {x new nft} ho hn => by
    have hzx : z ≠ x := by rintro rfl; simp [ho] at hz
    rw [ho, Function.update_of_ne hzx] at hz
    rw [hn, StorageMap.insert_of_ne hzx, hs.owned z hz]
  cases h with
  | silent _ h => rw [h.nfts]; exact hs.owned z (h.owner ▸ hz)
  | noted _ h => rw [h.nfts]; exact hs.owned z (h.owner ▸ hz)
  | mintNft _ _ h => exact hput h.owner h.nfts
  | mintNftDirectlyToNft _ _ _ h => exact hput h.owner h.nfts
  | send h => exact hput h.owner h.nfts
  | acceptNft h => exact hput h.owner h.nfts
  | @burnNft o x k _ h howner =>
      by_cases hb : Below s x z
      · exact h.nfts_below z hb
      · have hzx : z ≠ x := by rintro rfl; exact hb .refl
        rw [howner, Function.update_of_ne hzx] at hz
        rw [h.nfts_else z hb, hs.owned z hz]
  | @rejectNft o x nft _ _ h howner =>
      by_cases hb : Below s x z
      · exact h.nfts_below z hb
      · rw [h.nfts_else z hb, hs.owned z (howner ▸ hz)]
  | unequip h => rw [h.nfts, StorageMap.mutate_eq_none_iff]; exact hs.owned z (h.owner ▸ hz)
  | equip h => rw [h.nfts, StorageMap.mutate_eq_none_iff]; exact hs.owned z (h.owner ▸ hz)
  | list _ _ _ h => rw [h.nfts]; exact hs.owned z (h.owner ▸ hz)
  | unlist _ h => rw [h.nfts]; exact hs.owned z (h.owner ▸ hz)
  | buy _ _ _ h => exact hput h.owner h.nfts
  | acceptOffer _ h => exact hput h.owner h.nfts

/-- An identifier that has been issued stays so. -/
theorem Outcome.issued (h : Outcome s s' act) (hz : s'.nextNftId z.1 ≤ z.2) :
    s.nextNftId z.1 ≤ z.2 := by
  cases h with
  | silent _ h => exact h.nextNftId ▸ hz
  | noted _ h => exact h.nextNftId ▸ hz
  | mintNft _ _ h => exact (h.unissued hz).2
  | mintNftDirectlyToNft _ _ _ h => exact (h.unissued hz).2
  | send h => exact h.nextNftId ▸ hz
  | acceptNft h => exact h.nextNftId ▸ hz
  | burnNft _ h => exact h.nextNftId ▸ hz
  | rejectNft _ _ h => exact h.nextNftId ▸ hz
  | unequip h => exact h.nextNftId ▸ hz
  | equip h => exact h.nextNftId ▸ hz
  | list _ _ _ h => exact h.nextNftId ▸ hz
  | unlist _ h => exact h.nextNftId ▸ hz
  | buy _ _ _ h => exact h.nextNftId ▸ hz
  | acceptOffer _ h => exact h.nextNftId ▸ hz

/-- **No step brings an NFT under a number that is not handed out.** -/
theorem Sound.step (hs : Sound s) (h : Step s act s') : Sound s' :=
  ⟨fun _ hz => hs.absent_step h.outcome hz, fun _ hz => hs.owned_step h.outcome hz⟩

/-- At genesis nothing is there. -/
theorem sound_genesis (h : Genesis s) : Sound s := by
  obtain ⟨w, hw, -, rfl⟩ := h
  exact ⟨fun z _ => ⟨hw z, rfl, rfl, rfl, fun a => Finset.notMem_empty z⟩, fun _ _ => rfl⟩

/-- **The ledgers of every reachable state are sound.** -/
theorem Reachable.sound (h : Reachable s) : Sound s :=
  h.invariant (fun _ => sound_genesis) fun _ _ _ _ hs hstep => hs.step hstep

end Rmrk
