import Rmrk.Common.Frame
import Rmrk.Helpers.Lookup
import Rmrk.Model.System
/-!
# What each function writes

For each function the storage it writes, as a frame: a relation that
ignores those items, and that the calls it makes into other pallets keep,
relates the state the function finds to the state it leaves. Every frame
of the development is an instance.
-/

namespace Rmrk

open Effect

variable {W : Type} {R : State W → State W → Prop} [Std.Refl R]
variable {x y p : NftKey} {o a : AccountId} {c : CollectionId}

/-! ## Looking up -/

section Lookup

variable [Config W]

/-- The walk to the root only reads. -/
theorem within_lookupRootOwner : Within R (lookupRootOwner x : M W (AccountId × NftKey)) := by
  intro s r s' h
  exact (lookupRootOwner_ok.1 h).2 ▸ refl s

/-- So does the walk of the descent check. -/
theorem within_isXDescendentOfY : Within R (isXDescendentOfY x y : M W Bool) := by
  intro s r s' h
  exact (isXDescendentOfY_ok.1 h).2 ▸ refl s

end Lookup

omit [Std.Refl R] in
/-- A call into another pallet writes its storage only. -/
theorem within_external {f : W → Except DispatchError W}
    (h : ∀ s w, f s.ext = .ok w → R s { s with ext := w }) : Within R (external f : M W Unit) := by
  intro s u s' hm
  obtain ⟨w, hw, rfl⟩ := external_ok.1 hm
  exact h s w hw

variable [IsTrans (State W) R]

namespace Core

/-! ## Resources, priorities and properties -/

/-- Only a resource that names a base is indexed: a slot resource under its
slot, a composable one under its base and under the slot it may fill. -/
theorem within_indexResource (hbases : ∀ s m, R s { s with equippableBases := m })
    (hslots : ∀ s m, R s { s with equippableSlots := m }) {r : ResourceId}
    {resource : ResourceTypes} : Within R (indexResource x r resource : M W Unit) := by
  cases resource with
  | basic r => exact .pure
  | slot r => exact .update fun s => hslots s _
  | composable r =>
      refine .bind (.update fun s => hbases s _) fun _ => ?_
      cases r.slot with
      | none => exact .pure
      | some q => exact .update fun s => hslots s _

/-- The counter of the NFT's resources, and nothing else. -/
theorem within_getNextResourceId (hnext : ∀ s m, R s { s with nextResourceId := m }) :
    Within R (getNextResourceId x : M W ResourceId) :=
  .bind .get fun _ => .bind .okOr fun _ => .bind (.update fun s => hnext s _) fun _ => .pure

/-- One entry of `Priorities` a position, by induction on the list. -/
theorem within_insertPriorities (hpriorities : ∀ s m, R s { s with priorities := m }) {i : UInt32}
    {l : List ResourceId} : Within R (insertPriorities x i l : M W Unit) := by
  induction l generalizing i with
  | nil => exact .pure
  | cons r l ih => exact .bind (.update fun s => hpriorities s _) fun _ => ih

variable [Config W]

/-- The counter, the two indexes and the resource itself. -/
theorem within_resourceAdd (hnext : ∀ s m, R s { s with nextResourceId := m })
    (hbases : ∀ s m, R s { s with equippableBases := m })
    (hslots : ∀ s m, R s { s with equippableSlots := m })
    (hresources : ∀ s m, R s { s with resources := m }) {resource : ResourceTypes}
    {addingOnMint : Bool} : Within R (resourceAdd o x resource addingOnMint : M W ResourceId) :=
  .bind .get fun _ => .bind .okOr fun _ => .bind (within_getNextResourceId hnext) fun _ =>
    .bind .ensure fun _ => .bind within_lookupRootOwner fun _ => .bind .ensure fun _ =>
      .bind (within_indexResource hbases hslots) fun _ =>
        .bind (.update fun s => hresources s _) fun _ => .pure

/-- As many times as the mint brings resources. -/
theorem within_addResources (hnext : ∀ s m, R s { s with nextResourceId := m })
    (hbases : ∀ s m, R s { s with equippableBases := m })
    (hslots : ∀ s m, R s { s with equippableSlots := m })
    (hresources : ∀ s m, R s { s with resources := m }) {l : Option (List ResourceTypes)} :
    Within R (addResources o x l : M W Unit) :=
  .each fun _ => .bind (within_resourceAdd hnext hbases hslots hresources) fun _ => .pure

theorem within_addResource (hnext : ∀ s m, R s { s with nextResourceId := m })
    (hbases : ∀ s m, R s { s with equippableBases := m })
    (hslots : ∀ s m, R s { s with equippableSlots := m })
    (hresources : ∀ s m, R s { s with resources := m }) {resource : ResourceTypes} :
    Within R (addResource o x resource : M W Unit) :=
  .transactional (.bind (within_resourceAdd hnext hbases hslots hresources) fun _ => .pure)

/-- The record loses its pending mark. -/
theorem within_acceptResource (hresources : ∀ s m, R s { s with resources := m })
    {r : ResourceId} : Within R (acceptResource o x r : M W Unit) :=
  .transactional (.bind .get fun _ => .bind .okOr fun _ => .bind within_lookupRootOwner fun _ =>
    .bind .ensure fun _ => .bind .ensure fun _ => .update fun s => hresources s _)

/-- The issuer takes the record out where it is the root owner too, and
marks it elsewhere. -/
theorem within_removeResource (hresources : ∀ s m, R s { s with resources := m })
    {r : ResourceId} : Within R (removeResource o x r : M W Unit) :=
  .transactional (.bind .get fun _ => .bind .okOr fun _ => .bind within_lookupRootOwner fun _ =>
    .bind .ensure fun _ => .bind .ensure fun _ =>
      .ite (.update fun s => hresources s _) (.update fun s => hresources s _))

/-- The marked record goes. -/
theorem within_acceptResourceRemoval (hresources : ∀ s m, R s { s with resources := m })
    {r : ResourceId} : Within R (acceptResourceRemoval o x r : M W Unit) :=
  .transactional (.bind .get fun _ => .bind within_lookupRootOwner fun _ => .bind .ensure fun _ =>
    .bind .okOr fun _ => .bind .ensure fun _ => .update fun s => hresources s _)

/-- The old order is cleared and the new one written, both in `Priorities`. -/
theorem within_setPriority (hpriorities : ∀ s m, R s { s with priorities := m })
    {l : List ResourceId} : Within R (setPriority o x l : M W Unit) :=
  .transactional (.bind within_lookupRootOwner fun _ => .bind .ensure fun _ => .bind .get fun _ =>
    .bind .ensure fun _ => .bind (.update fun s => hpriorities s _) fun _ =>
      within_insertPriorities hpriorities)

/-- One value, under the collection or under the NFT. -/
theorem within_setProperty (hproperties : ∀ s m, R s { s with properties := m })
    {n : Option NftId} {k v : BoundedString} : Within R (setProperty o c n k v : M W Unit) := by
  refine .transactional (.bind .get fun _ => .bind .okOr fun _ => .bind .ensure fun _ => ?_)
  cases n with
  | none => exact .update fun s => hproperties s _
  | some n =>
      exact .bind .ensure fun _ => .bind within_lookupRootOwner fun _ => .bind .ensure fun _ =>
        .update fun s => hproperties s _

/-! ## Collections -/

/-- The index, the record and the class of `pallet_uniques`. -/
theorem within_createCollection (hindex : ∀ s n, R s { s with collectionIndex := n })
    (hcols : ∀ s m, R s { s with collections := m })
    (hext : ∀ s c w, Uniques.doCreateCollection s.ext c o o = .ok w → R s { s with ext := w })
    {md sy : BoundedString} {max : Option UInt32} :
    Within R (createCollection o md max sy : M W Unit) :=
  .transactional (.bind (.bind .get fun _ => .bind .ensure fun _ =>
    .bind (.update fun s => hindex s _) fun _ => .bind (.update fun s => hcols s _) fun _ => .pure)
      fun _ => within_external fun s w hw => hext s _ w hw)

/-- The record and the class, which go together. -/
theorem within_destroyCollection (hcols : ∀ s m, R s { s with collections := m })
    (hext : ∀ s d w, Uniques.doDestroyCollection s.ext c d o = .ok w → R s { s with ext := w }) :
    Within R (destroyCollection o c : M W Unit) :=
  .transactional (.bind (.bind .get fun _ => .bind .okOr fun _ => .bind .ensure fun _ =>
    .update fun s => hcols s _) fun _ => .bind .get fun _ => .bind .okOr fun _ =>
      .bind .ensure fun _ => within_external fun s w hw => hext s _ w hw)

/-- The record's issuer and the owner of the class. -/
theorem within_changeCollectionIssuer (hcols : ∀ s m, R s { s with collections := m })
    (hext : ∀ s c a w, Uniques.transferOwnership s.ext o c a = .ok w → R s { s with ext := w })
    {source : Config.Source W} : Within R (changeCollectionIssuer o c source : M W Unit) :=
  .transactional (.bind .get fun _ => .bind .okOr fun _ => .bind .ensure fun _ =>
    .bind .ofResult fun _ => .bind .ensure fun _ => .bind (.bind .get fun _ =>
      .bind .ensure fun _ => .bind (.update fun s => hcols s _) fun _ => .pure) fun _ =>
        within_external fun s w hw => hext s _ _ w hw)

omit [Config W] in
/-- The record's cap, set to what has been minted. -/
theorem within_lockCollection (hcols : ∀ s m, R s { s with collections := m }) :
    Within R (lockCollection o c : M W Unit) :=
  .transactional (.bind (.bind .get fun _ => .bind .okOr fun _ => .bind .ensure fun _ =>
    .bind (.update fun s => hcols s _) fun _ => .pure) fun _ => .pure)

/-! ## Minting -/

/-- The check before both mints only reads. -/
theorem within_checkCollectionOwner : Within R (checkCollectionOwner o c : M W Unit) :=
  .bind .get fun _ => .bind .okOr fun _ => .ensure

omit [Config W] in
/-- The number is taken before the cap is asked for, so a refused mint relies
on the storage layer to give it back. -/
theorem within_claimNftId (hnext : ∀ s m, R s { s with nextNftId := m }) :
    Within R (claimNftId c : M W (NftId × CollectionInfo)) := by
  have hid : Within R (getNextNftId c : M W NftId) :=
    .bind .get fun _ => .bind .okOr fun _ => .bind (.update fun s => hnext s _) fun _ => .pure
  refine .bind hid fun _ => .bind .get fun _ => .bind .okOr fun col => ?_
  cases col.max with
  | none => exact .pure
  | some m => exact .bind .ensure fun _ => .pure

omit [Config W] in
/-- The record of the NFT and the count of its collection. -/
theorem within_recordNft (hnfts : ∀ s m, R s { s with nfts := m })
    (hcols : ∀ s m, R s { s with collections := m }) {col : CollectionInfo} {nft : NftInfo} :
    Within R (recordNft x col nft : M W Unit) :=
  .bind (.update fun s => hnfts s _) fun _ => .bind .okOr fun _ => .bind .get fun _ =>
    .bind .okOr fun _ => .update fun s => hcols s _

section Mint

variable (hid : ∀ s m, R s { s with nextNftId := m }) (hnfts : ∀ s m, R s { s with nfts := m })
variable (hcols : ∀ s m, R s { s with collections := m })
variable (hmint : ∀ s x a w, Uniques.doMint s.ext x a = .ok w → R s { s with ext := w })
variable (hres : ∀ o x l, Within R (addResources o x l : M W Unit))
variable {rr : Option AccountId} {r : Option Permill} {md : BoundedString} {tr : Bool}
variable {l : Option (List ResourceTypes)}

include hid hnfts hcols hmint hres

/-- **The frame of a mint**: what it claims, what it records, the item of
`pallet_uniques`, and whatever its resources write. -/
theorem within_mintNft {owner : Option AccountId} :
    Within R (mintNft o owner c rr r md tr l : M W Unit) :=
  .transactional (.bind within_checkCollectionOwner fun _ =>
    .bind (.bind (within_claimNftId hid) fun _ => .bind (within_recordNft hnfts hcols) fun _ =>
      .pure) fun _ => .bind (within_external fun s w hw => hmint s _ _ w hw) fun _ => hres _ _ _)

/-- A mint into an NFT writes the same items: no `Children` entry is among
them. -/
theorem within_mintNftDirectlyToNft :
    Within R (mintNftDirectlyToNft o p c rr r md tr l : M W Unit) :=
  .transactional (.bind within_checkCollectionOwner fun _ =>
    .bind (.bind (within_claimNftId hid) fun _ => .bind within_lookupRootOwner fun _ =>
      .bind (within_recordNft hnfts hcols) fun _ => .pure) fun _ =>
        .bind (within_external fun s w hw => hmint s _ _ w hw) fun _ => hres _ _ _)

end Mint

/-! ## Burning -/

section Burn

variable (hnfts : ∀ s m, R s { s with nfts := m }) (hcols : ∀ s m, R s { s with collections := m })
variable (hres : ∀ s m, R s { s with resources := m })
variable (hchildren : ∀ s m, R s { s with children := m })

include hnfts hcols hres hchildren

/-- **The frame of the recursive burn**, by induction on the budget: the
subtree's records, resources and child lists, and the counts of its
collections. -/
theorem within_nftBurn {k : ℕ} : Within R (nftBurn k x : M W Unit) := by
  induction k generalizing x with
  | zero => exact .throw
  | succ k ih =>
      have hremove : ∀ p y, Within R (removeChild p y : M W Unit) := fun _ _ =>
        .update fun s => hchildren s _
      have hunlink : Within R (unlinkRecorded x : M W Unit) := by
        refine .bind .get fun s => ?_
        cases s.nfts x with
        | none => exact .pure
        | some nft =>
            cases ho : nft.owner with
            | accountId id => simpa only [ho] using Within.pure
            | collectionAndNftTuple cid nid =>
                simpa only [ho] using hremove (cid, nid) x
      refine .bind hunlink fun _ => .bind (.update fun s => ?_) fun _ => .bind .get fun _ =>
        .bind (.each fun y => ?_) fun _ => .bind .get fun _ => .bind .okOr fun _ =>
          .update fun s => hcols s _
      · exact IsTrans.trans _ { s with nfts := s.nfts.remove x } _ (hnfts s _) (hres _ _)
      · exact .bind .get fun _ => .ite (.bind (hremove x y) fun _ => ih) .pure

/-- The call burns the one item of `pallet_uniques` it names, whatever it took
along in its own storage. -/
theorem within_burnNft (hburn : ∀ s w, Uniques.doBurn s.ext x = .ok w → R s { s with ext := w })
    {k : UInt32} : Within R (burnNft o x k : M W Unit) :=
  .transactional (.bind within_lookupRootOwner fun _ => .bind .ensure fun _ =>
    .bind (within_nftBurn hnfts hcols hres hchildren) fun _ => within_external hburn)

/-- A rejection burns the subtree and leaves `pallet_uniques` alone. -/
theorem within_rejectNft : Within R (rejectNft o x : M W Unit) := by
  have hburn : ∀ k, Within R (nftBurn k x : M W Unit) := fun k =>
    within_nftBurn hnfts hcols hres hchildren
  refine .transactional (.bind within_lookupRootOwner fun _ => .bind .get fun s =>
    .bind .okOr fun _ => .bind .ensure fun _ => .bind .ensure fun _ => ?_)
  cases s.parent x with
  | none => exact hburn _
  | some p => exact .bind (.update fun s => hchildren s _) fun _ => hburn _

end Burn

/-! ## Sending and accepting -/

/-- What is asked of an NFT as a new owner is only read. -/
theorem within_checkTarget : Within R (checkTarget x p : M W AccountId) :=
  .bind .get fun _ => .bind .ensure fun _ => .bind .ensure fun _ =>
    .bind within_isXDescendentOfY fun _ => .bind .ensure fun _ =>
      .bind within_lookupRootOwner fun _ => .pure

/-- Nor does working out where a send goes write anything. -/
theorem within_sendTarget {newOwner : AccountIdOrCollectionNftTuple} :
    Within R (sendTarget x o newOwner : M W (AccountId × Bool)) := by
  cases newOwner with
  | accountId id => exact .pure
  | collectionAndNftTuple cid nid => exact .bind within_checkTarget fun _ => .pure

/-- Nor where an acceptance goes. -/
theorem within_acceptTarget {newOwner : AccountIdOrCollectionNftTuple} :
    Within R (acceptTarget x o newOwner : M W AccountId) := by
  cases newOwner with
  | accountId id => exact .pure
  | collectionAndNftTuple cid nid =>
      exact .bind within_checkTarget fun _ => .bind .ensure fun _ => .pure

omit [Config W] in
/-- At most two child lists: the old parent's and the new one's. -/
theorem within_relinkChild (hchildren : ∀ s m, R s { s with children := m })
    {old new : AccountId} : Within R (relinkChild x old new : M W Unit) := by
  have hremove : ∀ p, Within R (removeChild p x : M W Unit) := fun _ =>
    .update fun s => hchildren s _
  have hadd : ∀ p, Within R (addChild p x : M W Unit) := fun _ => .update fun s => hchildren s _
  unfold relinkChild
  cases decodeNftAccountId old <;> cases decodeNftAccountId new
  · exact .pure
  · exact hadd _
  · exact .bind (hremove _) fun _ => .pure
  · exact .bind (hremove _) fun _ => hadd _

section Send

variable (hnfts : ∀ s m, R s { s with nfts := m })
variable {newOwner : AccountIdOrCollectionNftTuple}

include hnfts

/-- The record of what is sent, and the child lists it moves between. -/
theorem within_nftSend (hchildren : ∀ s m, R s { s with children := m }) :
    Within R (nftSend o x newOwner : M W (AccountId × Bool)) :=
  .bind .get fun _ => .bind .okOr fun _ => .bind within_lookupRootOwner fun _ =>
    .bind .ensure fun _ => .bind .okOr fun _ => .bind .ensure fun _ => .bind .ensure fun _ =>
      .bind within_sendTarget fun _ =>
        .bind (.ite (.update fun s => hnfts s _) (.update fun s => hnfts s _)) fun _ =>
          .bind (within_relinkChild hchildren) fun _ => .pure

/-- The record of what is accepted. No child list is written. -/
theorem within_nftAccept : Within R (nftAccept o x newOwner : M W AccountId) :=
  .bind within_lookupRootOwner fun _ => .bind .ensure fun _ => .bind .get fun _ =>
    .bind .okOr fun _ => .bind within_acceptTarget fun _ =>
      .bind (.update fun s => hnfts s _) fun _ => .pure

variable (hext : ∀ s l a w, Uniques.doTransfer l s.ext x a = .ok w → R s { s with ext := w })

include hext

/-- **The frame of `send`**: that of `nft_send` and the transfer of the item.
-/
theorem within_send (hchildren : ∀ s m, R s { s with children := m }) :
    Within R (send o x newOwner : M W Unit) :=
  .transactional (.bind (within_nftSend hnfts hchildren) fun _ => .bind .get fun _ =>
    within_external fun s w hw => hext s _ _ w hw)

/-- **The frame of `accept_nft`**, likewise. -/
theorem within_acceptNft : Within R (acceptNft o x newOwner : M W Unit) :=
  .transactional (.bind (within_nftAccept hnfts) fun _ => .bind .get fun _ =>
    within_external fun s w hw => hext s _ _ w hw)

end Send

end Core

/-! ## `rmrk-equip` -/

namespace Equip

/-- The counter, the record and one entry of `Parts` a part. -/
theorem within_createBase (hnext : ∀ s n, R s { s with nextBaseId := n })
    (hparts : ∀ s m, R s { s with parts := m }) (hbases : ∀ s m, R s { s with bases := m })
    {bt sy : BoundedString} {parts : List PartType} :
    Within R (createBase o bt sy parts : M W Unit) :=
  .bind (.bind (.bind .get fun _ => .bind .okOr fun _ => .bind (.update fun s => hnext s _)
    fun _ => .pure) fun _ => .bind (.each fun _ => .update fun s => hparts s _) fun _ =>
      .bind (.update fun s => hbases s _) fun _ => .pure) fun _ => .pure

/-- Only a slot part has a list to write. -/
theorem within_equippable (hparts : ∀ s m, R s { s with parts := m }) {b : BaseId} {sl : SlotId}
    {l : EquippableList} : Within R (equippable o b sl l : M W Unit) := by
  refine .bind .get fun _ => .bind .okOr fun _ => .bind .ensure fun _ => .bind .okOr fun part => ?_
  cases part with
  | fixedPart q => exact .throw
  | slotPart q => exact .update fun s => hparts s _

variable [Config W]

/-- The record's issuer. -/
theorem within_changeBaseIssuer (hbases : ∀ s m, R s { s with bases := m }) {b : BaseId}
    {source : Config.Source W} : Within R (changeBaseIssuer o b source : M W Unit) :=
  .bind .get fun _ => .bind .okOr fun _ => .bind .ensure fun _ => .bind .ofResult fun _ =>
    .bind .ensure fun _ => .bind (.bind .get fun _ => .bind .ensure fun _ =>
      .bind (.update fun s => hbases s _) fun _ => .pure) fun _ => .pure

/-- One entry of `Themes` a property of the theme. -/
theorem within_themeAdd (hthemes : ∀ s l, R s { s with themes := l }) {b : BaseId}
    {theme : Theme} : Within R (themeAdd o b theme : M W Unit) :=
  .bind .ensure fun _ => .bind .get fun _ => .bind .okOr fun _ => .bind .ensure fun _ =>
    .bind .ensure fun _ => .each fun _ => .update fun s => hthemes s _

/-- **The frame of `equip`**: one entry of `Equippings` and the item's flag,
on each of its three ways out. -/
theorem within_equip (hequippings : ∀ s m, R s { s with equippings := m })
    (hnfts : ∀ s m, R s { s with nfts := m }) {item equipper : NftKey} {r : ResourceId}
    {b : BaseId} {sl : SlotId} : Within R (equip o item equipper r b sl : M W Unit) := by
  have hempty : Within R (unequip item equipper b sl : M W Bool) :=
    .bind (.update fun s => hequippings s _) fun _ => .bind (.update fun s => hnfts s _) fun _ =>
      .pure
  have hfill : ∀ a a', Within R (fillSlot o item equipper r b sl a a' : M W Bool) := by
    intro a a'
    refine .bind .get fun _ => .bind .ensure fun _ => .bind .okOr fun _ => .bind .ensure fun _ =>
      .bind .ensure fun _ => .bind .ensure fun _ => .bind .ensure fun _ => .bind .ensure fun _ =>
        .bind .ensure fun _ => .bind .okOr fun part => ?_
    cases part with
    | fixedPart q => exact .throw
    | slotPart q =>
        exact .bind .ensure fun _ => .bind (.update fun s => hequippings s _) fun _ =>
          .bind (.update fun s => hnfts s _) fun _ => .pure
  exact .bind (.bind .get fun _ => .bind .ensure fun _ => .bind .ensure fun _ =>
    .ite hempty (.bind within_lookupRootOwner fun _ => .bind within_lookupRootOwner fun _ =>
      .ite hempty (hfill _ _))) fun _ => .pure

end Equip

/-! ## `rmrk-market` -/

namespace Market

variable [Config W]

section List

variable (hlock : ∀ s l, R s { s with lock := l })
variable (hlisted : ∀ s l, R s { s with listedNfts := l })

include hlock hlisted

/-- A listing and a lock. -/
theorem within_list {v : Balance} {e : Option BlockNumber} :
    Within R (list o x v e : M W Unit) :=
  .transactional (.bind .get fun _ => .bind .okOr fun _ => .bind .ensure fun _ =>
    .bind .ensure fun _ => .bind .okOr fun _ => .bind .ensure fun _ =>
      .bind (.update fun s => hlock s _) fun _ =>
        .ite (.bind (.update fun s => hlisted s _) fun _ => .update fun s => hlisted s _)
          (.update fun s => hlisted s _))

/-- The same two, the other way. -/
theorem within_unlist : Within R (unlist o x : M W Unit) :=
  .transactional (.bind .get fun _ => .bind .ensure fun _ => .bind .okOr fun _ =>
    .bind .ensure fun _ => .bind (.update fun s => hlock s _) fun _ =>
      .update fun s => hlisted s _)

omit hlock in
omit [Config W] in
/-- The price of a listing is read by taking the listing out. An offer is paid
without one. -/
theorem within_listPrice {buyer owner : AccountId} {isOffer : Bool} :
    Within R (listPrice buyer owner x isOffer : M W Balance) := by
  refine .bind .get fun _ => .ite (.bind .okOr fun _ => .pure) ?_
  exact .bind .okOr fun _ => .bind (.update fun s => hlisted s _) fun _ => .bind .ensure fun _ =>
    .bind .ensure fun _ => .pure

/-- **The frame of `do_buy`**: it writes a listing and a lock, pays and
sends. -/
theorem within_doBuy {buyer : AccountId} {amount : Option Balance} {isOffer : Bool}
    (hpay : ∀ s w owner price, Currency.transfer s.ext buyer owner price .keepAlive = .ok w →
      R s { s with ext := w })
    (hsend : ∀ owner, Within R (Core.send owner x (.accountId buyer) : M W Unit)) :
    Within R (doBuy buyer x amount isOffer : M W Unit) := by
  have hrest : ∀ price owner, Within R (do
      Core.setLock x false
      external fun w => Currency.transfer w buyer owner price .keepAlive
      Core.send owner x (.accountId buyer) : M W Unit) := fun _ _ =>
    .bind (.update fun s => hlock s _) fun _ =>
      .bind (within_external fun s w hw => hpay s w _ _ hw) fun _ => hsend _
  refine .bind .get fun _ => .bind .okOr fun _ => .bind .ensure fun _ =>
    .bind (within_listPrice hlisted) fun _ => ?_
  cases amount with
  | none => exact hrest _ _
  | some v => exact .bind .ensure fun _ => hrest _ _

end List

section Offer

variable (hoffers : ∀ s m, R s { s with offers := m })

include hoffers

/-- An offer and the reserve behind it. -/
theorem within_makeOffer
    (hreserve : ∀ s v w, Currency.reserve s.ext o v = .ok w → R s { s with ext := w })
    {v : Balance} {e : Option BlockNumber} : Within R (makeOffer o x v e : M W Unit) :=
  .transactional (.bind .ensure fun _ => .bind .get fun _ => .bind .okOr fun _ =>
    .bind .ensure fun _ => .bind .ensure fun _ =>
      .bind (within_external fun s w hw => hreserve s _ w hw) fun _ =>
        .update fun s => hoffers s _)

variable (hrelease : ∀ s a v, R s { s with ext := Currency.unreserve s.ext a v })

include hrelease

/-- The offer goes and its reserve is released. -/
theorem within_withdrawOffer : Within R (withdrawOffer o x : M W Unit) :=
  .transactional (.bind .get fun _ => .bind .okOr fun _ => .bind .okOr fun _ =>
    .bind .ensure fun _ => .bind (within_external fun s _ hw => Except.ok.inj hw ▸ hrelease s _ _)
      fun _ => .update fun s => hoffers s _)

/-- The same, and in between all that a buy writes. -/
theorem within_acceptOffer
    (hbuy : ∀ buyer, Within R (doBuy buyer x none true : M W Unit)) {offerer : AccountId} :
    Within R (acceptOffer o x offerer : M W Unit) :=
  .transactional (.bind .get fun _ => .bind .okOr fun _ => .bind .ensure fun _ =>
    .bind .okOr fun _ => .bind .ensure fun _ =>
      .bind (within_external fun s _ hw => Except.ok.inj hw ▸ hrelease s _ _) fun _ =>
        .bind (hbuy _) fun _ => .update fun s => hoffers s _)

end Offer

end Market

/-! ## The calls that found, mint, burn and note nothing -/

variable [Config W]

/-- The extrinsics that leave the collections there are, the NFTs there
are, their resources and the bases. -/
def Call.plain : Call W → Bool
  | .send .. | .acceptNft .. | .setProperty .. | .lockCollection .. | .setPriority .. | .equip ..
  | .themeAdd .. | .buy .. | .list .. | .unlist .. | .makeOffer .. | .withdrawOffer ..
  | .acceptOffer .. => true
  | _ => false

/-- **`R` ignores all that these extrinsics write.** -/
structure Loose (R : State W → State W → Prop) : Prop where
  collections : ∀ s m, R s { s with collections := m }
  nfts : ∀ s m, R s { s with nfts := m }
  priorities : ∀ s m, R s { s with priorities := m }
  children : ∀ s m, R s { s with children := m }
  properties : ∀ s m, R s { s with properties := m }
  lock : ∀ s l, R s { s with lock := l }
  equippings : ∀ s m, R s { s with equippings := m }
  themes : ∀ s l, R s { s with themes := l }
  listedNfts : ∀ s m, R s { s with listedNfts := m }
  offers : ∀ s m, R s { s with offers := m }
  doTransfer : ∀ s x l a w, Uniques.doTransfer l s.ext x a = .ok w → R s { s with ext := w }
  transfer : ∀ s a b v w, Currency.transfer s.ext a b v .keepAlive = .ok w → R s { s with ext := w }
  reserve : ∀ s a v w, Currency.reserve s.ext a v = .ok w → R s { s with ext := w }
  unreserve : ∀ s a v, R s { s with ext := Currency.unreserve s.ext a v }

/-- **And so they are within it.** -/
theorem Loose.dispatch (hR : Loose R) {call : Call W} (hcall : call.plain = true) :
    Within R (dispatch o call) := by
  have hsend : ∀ (a : AccountId) (x : NftKey) (t : AccountIdOrCollectionNftTuple),
      Within R (Core.send a x t : M W Unit) := fun _ x _ =>
    Core.within_send hR.nfts (fun s => hR.doTransfer s x) hR.children
  have hbuy : ∀ (a : AccountId) (x : NftKey) (v : Option Balance) (offered : Bool),
      Within R (Market.doBuy a x v offered : M W Unit) := fun a _ _ _ =>
    Market.within_doBuy hR.lock hR.listedNfts (fun s w b v hw => hR.transfer s a b v w hw)
      fun _ => hsend _ _ _
  cases call with
  | send => exact hsend _ _ _
  | acceptNft => exact Core.within_acceptNft hR.nfts fun s => hR.doTransfer s _
  | setProperty => exact Core.within_setProperty hR.properties
  | lockCollection => exact Core.within_lockCollection hR.collections
  | setPriority => exact Core.within_setPriority hR.priorities
  | equip => exact Equip.within_equip hR.equippings hR.nfts
  | themeAdd => exact Equip.within_themeAdd hR.themes
  | buy => exact .transactional (hbuy _ _ _ _)
  | list => exact Market.within_list hR.lock hR.listedNfts
  | unlist => exact Market.within_unlist hR.lock hR.listedNfts
  | makeOffer => exact Market.within_makeOffer hR.offers fun s => hR.reserve s o
  | withdrawOffer => exact Market.within_withdrawOffer hR.offers hR.unreserve
  | acceptOffer => exact Market.within_acceptOffer hR.offers hR.unreserve fun _ => hbuy _ _ _ _
  | _ => simp [Call.plain] at hcall

/-- The extrinsics that found, hand over and destroy no collection and
write no base. -/
def Call.ofNfts : Call W → Bool
  | .mintNft .. | .mintNftDirectlyToNft .. | .burnNft .. | .rejectNft .. | .addBasicResource ..
  | .addComposableResource .. | .addSlotResource .. | .acceptResource .. | .removeResource ..
  | .acceptResourceRemoval .. => true
  | c => c.plain

/-- **`R` ignores all that these extrinsics write.** -/
structure Lax (R : State W → State W → Prop) : Prop extends Loose R where
  nextNftId : ∀ s m, R s { s with nextNftId := m }
  nextResourceId : ∀ s m, R s { s with nextResourceId := m }
  resources : ∀ s m, R s { s with resources := m }
  equippableBases : ∀ s m, R s { s with equippableBases := m }
  equippableSlots : ∀ s m, R s { s with equippableSlots := m }
  doMint : ∀ s x a w, Uniques.doMint s.ext x a = .ok w → R s { s with ext := w }
  doBurn : ∀ s x w, Uniques.doBurn s.ext x = .ok w → R s { s with ext := w }

theorem Lax.dispatch (hR : Lax R) {call : Call W} (hcall : call.ofNfts = true) :
    Within R (dispatch o call) := by
  have hadd : ∀ (a : AccountId) (x : NftKey) (r : ResourceTypes),
      Within R (Core.addResource a x r : M W Unit) := fun _ _ _ =>
    Core.within_addResource hR.nextResourceId hR.equippableBases hR.equippableSlots hR.resources
  have hres : ∀ (a : AccountId) (x : NftKey) (l : Option (List ResourceTypes)),
      Within R (Core.addResources a x l : M W Unit) := fun _ _ _ =>
    Core.within_addResources hR.nextResourceId hR.equippableBases hR.equippableSlots hR.resources
  by_cases hplain : call.plain = true
  · exact hR.toLoose.dispatch hplain
  · cases call with
    | mintNft => exact Core.within_mintNft hR.nextNftId hR.nfts hR.collections hR.doMint hres
    | mintNftDirectlyToNft =>
        exact Core.within_mintNftDirectlyToNft hR.nextNftId hR.nfts hR.collections hR.doMint hres
    | burnNft =>
        exact Core.within_burnNft hR.nfts hR.collections hR.resources hR.children
          fun s => hR.doBurn s _
    | rejectNft => exact Core.within_rejectNft hR.nfts hR.collections hR.resources hR.children
    | addBasicResource => exact hadd _ _ _
    | addComposableResource => exact hadd _ _ _
    | addSlotResource => exact hadd _ _ _
    | acceptResource => exact Core.within_acceptResource hR.resources
    | removeResource => exact Core.within_removeResource hR.resources
    | acceptResourceRemoval => exact Core.within_acceptResourceRemoval hR.resources
    | _ => exact absurd hcall hplain

end Rmrk
