import Rmrk.Helpers.Burn
import Rmrk.Model.System
/-!
# What the extrinsics do

The effects a step can have on who owns what: each is what a group of
extrinsics leaves behind, read off their bodies once. An effect says what
becomes of the owner, the record and the index entry of every NFT, and of
its lock, listing and slots.
-/

namespace Rmrk

open Effect Pointer

variable {W : Type} [Config W] {s s' t : State W} {x y p : NftKey} {o a : AccountId} {u : Unit}

/-! ## The effects -/

/-- The resources, priorities and properties of an NFT are as they were. -/
structure SameNotes (x : NftKey) (s s' : State W) : Prop where
  resources : ∀ r, s'.resources (x, r) = s.resources (x, r)
  priorities : ∀ r, s'.priorities (x, r) = s.priorities (x, r)
  properties : ∀ k, s'.properties (x.1, some x.2, k) = s.properties (x.1, some x.2, k)

/-- The locks and the listings are as they were. -/
structure SameListings (s s' : State W) : Prop where
  lock : s'.lock = s.lock
  listedNfts : s'.listedNfts = s.listedNfts

/-- The slots are as they were, and no NFT has lost a slot it fits. -/
structure SameSlots (s s' : State W) : Prop where
  equippings : s'.equippings = s.equippings
  fits : ∀ k, (s.equippableSlots k).isSome = true → (s'.equippableSlots k).isSome = true

/-- **Nothing has moved.** -/
structure Quiet (s s' : State W) : Prop extends SameListings s s', SameSlots s s' where
  owner : s'.owner = s.owner
  nfts : s'.nfts = s.nfts
  children : s'.children = s.children
  nextNftId : s'.nextNftId = s.nextNftId
  blockNumber : s.blockNumber ≤ s'.blockNumber

/-- Nothing has moved, and at most the notes of `x` have changed. -/
structure Noted (x : NftKey) (s s' : State W) : Prop extends Quiet s s' where
  notes : ∀ z, z ≠ x → SameNotes z s s'

/-- Nothing has moved, and no notes have changed. -/
structure Silent (s s' : State W) : Prop extends Quiet s s' where
  notes : ∀ z, SameNotes z s s'

/-- The base a resource is composed on, if it is a composable one. -/
def ResourceTypes.composableBase : ResourceTypes → Option BaseId
  | .composable r => some r.base
  | _ => none

/-- The slot a resource is for, if it is for one. -/
def ResourceTypes.designated : ResourceTypes → Option (BaseId × SlotId)
  | .basic _ => none
  | .composable r => r.slot
  | .slot r => some (r.base, r.slot)

/-- **A resource has been added** to `x`, under its next identifier. -/
structure Added (o : AccountId) (x : NftKey) (resource : ResourceTypes) (onMint : Bool)
    (s s' : State W) : Prop where
  issuer : ∃ col, s.collections x.1 = some col ∧ col.issuer = o
  unlocked : s.lock x = false
  room : (s.nextResourceId x).toNat + 1 < UInt32.size
  nextResourceId : s'.nextResourceId = Function.update s.nextResourceId x (s.nextResourceId x + 1)
  resources : ∃ a, RootOwner s x a ∧ s'.resources = s.resources.insert (x, s.nextResourceId x)
    { id := s.nextResourceId x, pending := decide (a ≠ o) && !onMint, pendingRemoval := false
      resource }
  bases : ∀ k, (s'.equippableBases k).isSome = true ↔ (s.equippableBases k).isSome = true ∨
    k.1 = x ∧ resource.composableBase = some k.2
  slots : ∀ k, (s'.equippableSlots k).isSome = true ↔ (s.equippableSlots k).isSome = true ∨
    k.1 = x ∧ k.2.1 = s.nextResourceId x ∧ resource.designated = some k.2.2
  /-- And nothing else has been written. -/
  frame : s' = { s with
    nextResourceId := s'.nextResourceId
    resources := s'.resources
    equippableBases := s'.equippableBases
    equippableSlots := s'.equippableSlots }

/-- **An NFT has been minted** to `a`, under the next identifier of its
collection. -/
structure Minted (x : NftKey) (a : AccountId) (nft : NftInfo) (s s' : State W) : Prop
    extends SameListings s s', SameSlots s s' where
  next : s.nextNftId x.1 = x.2
  room : x.2.toNat + 1 < UInt32.size
  nextNftId : s'.nextNftId = Function.update s.nextNftId x.1 (x.2 + 1)
  equipped : nft.equipped = false
  owner : s'.owner = Function.update s.owner x (some a)
  nfts : s'.nfts = s.nfts.insert x nft
  children : s'.children = s.children
  blockNumber : s.blockNumber ≤ s'.blockNumber
  notes : ∀ z, z ≠ x → SameNotes z s s'

/-- The account an owner stands for. -/
def AccountIdOrCollectionNftTuple.account : AccountIdOrCollectionNftTuple → AccountId
  | .accountId id => id
  | .collectionAndNftTuple cid nid => nftToAccountId (cid, nid)

/-- What a call that names `newOwner` for `x` asks of it, and the account
it transfers to. -/
def Target (s : State W) (x : NftKey) (newOwner : AccountIdOrCollectionNftTuple)
    (a : AccountId) : Prop :=
  match newOwner with
  | .accountId id => a = id
  | .collectionAndNftTuple cid nid =>
      a = nftToAccountId (cid, nid) ∧ (s.nfts (cid, nid)).isSome = true ∧
        ¬ Reaches s.parent (cid, nid) x

/-- The owner at the root of `x` has to approve what somebody else sends
to an NFT of his. -/
def ApprovalRequired (s : State W) (o : AccountId) :
    AccountIdOrCollectionNftTuple → Prop
  | .accountId _ => False
  | .collectionAndNftTuple cid nid => ¬ RootOwner s (cid, nid) o

/-- **An NFT has been sent** from `old` to `new`, and with it its entry in
the index. -/
structure Sent (o : AccountId) (x : NftKey) (newOwner : AccountIdOrCollectionNftTuple)
    (old new : AccountId) (nft nft' : NftInfo) (s s' : State W) : Prop
    extends SameSlots s s' where
  root : RootOwner s x o
  target : Target s x newOwner new
  owner_eq : s.owner x = some old
  nfts_eq : s.nfts x = some nft
  transferable : nft.transferable = true
  equipped : nft.equipped = false
  approved : ¬ ApprovalRequired s o newOwner → nft' = { nft with owner := newOwner }
  unapproved : ApprovalRequired s o newOwner → nft' = { nft with pending := true }
  owner : s'.owner = Function.update s.owner x (some new)
  nfts : s'.nfts = s.nfts.insert x nft'
  mem_children : ∀ a b, b ∈ s'.children a ↔ b = x ∧ decodeNftAccountId new = some a ∨
    b ∈ s.children a ∧ ¬ (b = x ∧ decodeNftAccountId old = some a)
  nextNftId : s'.nextNftId = s.nextNftId
  blockNumber : s.blockNumber ≤ s'.blockNumber
  notes : ∀ z, SameNotes z s s'

/-- **An NFT has been accepted**, and transferred to the owner the call
names. -/
structure Accepted (o : AccountId) (x : NftKey) (newOwner : AccountIdOrCollectionNftTuple)
    (new : AccountId) (nft : NftInfo) (s s' : State W) : Prop
    extends SameListings s s', SameSlots s s' where
  root : RootOwner s x o
  target : Target s x newOwner new
  approved : ¬ ApprovalRequired s o newOwner
  nfts_eq : s.nfts x = some nft
  unlocked : s.lock x = false
  owner : s'.owner = Function.update s.owner x (some new)
  nfts : s'.nfts = s.nfts.insert x { nft with pending := false }
  children : s'.children = s.children
  nextNftId : s'.nextNftId = s.nextNftId
  blockNumber : s.blockNumber ≤ s'.blockNumber
  notes : ∀ z, SameNotes z s s'

/-- **All the index reaches from `x` has been destroyed**, the entry of `x`
under `unlinked` taken out first. -/
structure Destroyed (x : NftKey) (unlinked : Option NftKey) (s s' : State W) : Prop
    extends SameListings s s', SameSlots s s' where
  nfts_below : ∀ y, Below s x y → s'.nfts y = none
  nfts_else : ∀ y, ¬ Below s x y → s'.nfts y = s.nfts y
  mem_children : ∀ a b, b ∈ s'.children a ↔ b ∈ s.children a ∧ ¬ Below s x a ∧
    ¬ (Below s x b ∧ s.recorded b = some a) ∧ ¬ (b = x ∧ unlinked = some a)
  nextNftId : s'.nextNftId = s.nextNftId
  blockNumber : s.blockNumber ≤ s'.blockNumber
  resources_below : ∀ y, Below s x y → ∀ r, s'.resources (y, r) = none
  notes : ∀ z, ¬ Below s x z → SameNotes z s s'
  priorities : s'.priorities = s.priorities
  properties : s'.properties = s.properties

/-- The flag of `item` and the slot `k` have been written, and nothing has
moved. -/
structure Wired (item : NftKey) (k : NftKey × BaseId × SlotId) (r : Option ResourceId)
    (s s' : State W) : Prop extends SameListings s s' where
  unlocked : s.lock item = false
  equippings : s'.equippings = Function.update s.equippings k r
  nfts : s'.nfts = s.nfts.mutate item fun nft => { nft with equipped := r.isSome }
  equippableSlots : s'.equippableSlots = s.equippableSlots
  owner : s'.owner = s.owner
  children : s'.children = s.children
  nextNftId : s'.nextNftId = s.nextNftId
  blockNumber : s.blockNumber ≤ s'.blockNumber
  notes : ∀ z, SameNotes z s s'

/-- The lock and the listing of `x` have been written, and nothing has
moved. -/
structure Posted (x : NftKey) (l : Bool) (info : Option ListInfo) (s s' : State W) : Prop
    extends SameSlots s s' where
  lock : s'.lock = Function.update s.lock x l
  listedNfts : s'.listedNfts = Function.update s.listedNfts x info
  owner : s'.owner = s.owner
  nfts : s'.nfts = s.nfts
  children : s'.children = s.children
  nextNftId : s'.nextNftId = s.nextNftId
  blockNumber : s.blockNumber ≤ s'.blockNumber
  notes : ∀ z, SameNotes z s s'

/-- An NFT is as it was, notes and all. -/
structure Undisturbed (x : NftKey) (s s' : State W) : Prop extends SameNotes x s s' where
  nfts : s'.nfts x = s.nfts x
  owner : s'.owner x = s.owner x

/-! ## Putting effects together -/

/-- What `Quiet` leaves as it was, but for the owners, and the block
number. -/
def State.still (s : State W) :=
  (s.nfts, s.children, s.nextNftId, s.lock, s.listedNfts, s.equippings, s.blockNumber)

theorem Quiet.of_eq (howner : s'.owner = s.owner) (hstill : s'.still = s.still)
    (hfits : ∀ k, (s.equippableSlots k).isSome = true → (s'.equippableSlots k).isSome = true) :
    Quiet s s' := by
  simp only [State.still, Prod.mk.injEq] at hstill
  obtain ⟨hnfts, hchildren, hnext, hlock, hlisted, hequip, hblock⟩ := hstill
  exact { owner := howner, nfts := hnfts, children := hchildren, nextNftId := hnext,
          lock := hlock, listedNfts := hlisted, equippings := hequip, fits := hfits,
          blockNumber := hblock.ge }

omit [Config W] in
theorem SameNotes.of_eq (h : (s'.resources, s'.priorities, s'.properties) =
    (s.resources, s.priorities, s.properties)) : SameNotes x s s' := by
  simp only [Prod.mk.injEq] at h
  obtain ⟨hres, hprio, hprop⟩ := h
  exact ⟨fun _ => by rw [hres], fun _ => by rw [hprio], fun _ => by rw [hprop]⟩

omit [Config W] in
theorem SameNotes.trans (h : SameNotes x s t) (h' : SameNotes x t s') : SameNotes x s s' :=
  ⟨fun r => (h'.resources r).trans (h.resources r),
    fun r => (h'.priorities r).trans (h.priorities r),
    fun k => (h'.properties k).trans (h.properties k)⟩

theorem Quiet.trans (h : Quiet s t) (h' : Quiet t s') : Quiet s s' where
  owner := h'.owner.trans h.owner
  nfts := h'.nfts.trans h.nfts
  children := h'.children.trans h.children
  nextNftId := h'.nextNftId.trans h.nextNftId
  lock := h'.lock.trans h.lock
  listedNfts := h'.listedNfts.trans h.listedNfts
  equippings := h'.equippings.trans h.equippings
  fits k hk := h'.fits k (h.fits k hk)
  blockNumber := h.blockNumber.trans h'.blockNumber

theorem Noted.refl : Noted x s s := ⟨.of_eq rfl rfl fun _ => id, fun _ _ => .of_eq rfl⟩

theorem Noted.trans (h : Noted x s t) (h' : Noted x t s') : Noted x s s' :=
  ⟨h.toQuiet.trans h'.toQuiet, fun z hz => (h.notes z hz).trans (h'.notes z hz)⟩

theorem Silent.of_eq (howner : s'.owner = s.owner) (hstill : s'.still = s.still)
    (hnotes : (s'.resources, s'.priorities, s'.properties) =
      (s.resources, s.priorities, s.properties))
    (hfits : s'.equippableSlots = s.equippableSlots) : Silent s s' :=
  ⟨.of_eq howner hstill fun k hk => by rwa [hfits], fun _ => .of_eq hnotes⟩

theorem Silent.trans (h : Silent s t) (h' : Silent t s') : Silent s s' :=
  ⟨h.toQuiet.trans h'.toQuiet, fun z => (h.notes z).trans (h'.notes z)⟩

theorem Minted.noted {nft : NftInfo} (h : Minted x a nft s t) (h' : Noted x t s') :
    Minted x a nft s s' where
  lock := h'.lock.trans h.lock
  listedNfts := h'.listedNfts.trans h.listedNfts
  equippings := h'.equippings.trans h.equippings
  fits k hk := h'.fits k (h.fits k hk)
  next := h.next
  room := h.room
  nextNftId := h'.nextNftId.trans h.nextNftId
  equipped := h.equipped
  owner := h'.owner.trans h.owner
  nfts := h'.nfts.trans h.nfts
  children := h'.children.trans h.children
  blockNumber := h.blockNumber.trans h'.blockNumber
  notes z hz := (h.notes z hz).trans (h'.notes z hz)

theorem Target.account {newOwner : AccountIdOrCollectionNftTuple}
    (h : Target s x newOwner a) : newOwner.account = a := by
  cases newOwner with
  | accountId id => exact h.symm
  | collectionAndNftTuple cid nid => exact h.1.symm

theorem target_congr {newOwner : AccountIdOrCollectionNftTuple} (howner : t.owner = s.owner)
    (hnfts : t.nfts = s.nfts) : Target t x newOwner a ↔ Target s x newOwner a := by
  cases newOwner <;> simp only [Target, hnfts, State.parent_congr howner]

theorem approvalRequired_congr {newOwner : AccountIdOrCollectionNftTuple}
    (howner : t.owner = s.owner) :
    ApprovalRequired t o newOwner ↔ ApprovalRequired s o newOwner := by
  cases newOwner <;> simp only [ApprovalRequired, rootOwner_congr howner]

/-- What is sent once a sale has been settled is sent as it stood before. -/
theorem Sent.before {newOwner : AccountIdOrCollectionNftTuple} {old new : AccountId}
    {nft nft' : NftInfo} (howner : t.owner = s.owner) (hnfts : t.nfts = s.nfts)
    (hchildren : t.children = s.children) (hnext : t.nextNftId = s.nextNftId)
    (hblock : t.blockNumber = s.blockNumber) (hslots : SameSlots s t)
    (hnotes : ∀ z, SameNotes z s t)
    (h : Sent o x newOwner old new nft nft' t s') : Sent o x newOwner old new nft nft' s s' where
  equippings := h.equippings.trans hslots.equippings
  fits k hk := h.fits k (hslots.fits k hk)
  root := (rootOwner_congr howner).1 h.root
  target := (target_congr howner hnfts).1 h.target
  owner_eq := howner ▸ h.owner_eq
  nfts_eq := hnfts ▸ h.nfts_eq
  transferable := h.transferable
  equipped := h.equipped
  approved ha := h.approved (mt (approvalRequired_congr howner).1 ha)
  unapproved ha := h.unapproved ((approvalRequired_congr howner).2 ha)
  owner := h.owner.trans (by rw [howner])
  nfts := h.nfts.trans (by rw [hnfts])
  mem_children a b := by rw [h.mem_children a b, hchildren]
  nextNftId := h.nextNftId.trans hnext
  blockNumber := hblock ▸ h.blockNumber
  notes z := (hnotes z).trans (h.notes z)

/-! ## What an effect leaves as it was -/

/-- What is wired is on record as before, but for the flag. -/
theorem Wired.record {item : NftKey} {k : NftKey × BaseId × SlotId} {r : Option ResourceId}
    (h : Wired item k r s s') {z : NftKey} {nft' : NftInfo} (hz : s'.nfts z = some nft') :
    ∃ nft, s.nfts z = some nft ∧ nft' = { nft with equipped := nft'.equipped } := by
  rw [h.nfts, StorageMap.mutate_apply] at hz
  split at hz
  · next hzi =>
      obtain ⟨nft, hnft, rfl⟩ := Option.map_eq_some_iff.1 hz
      exact ⟨nft, hzi ▸ hnft, rfl⟩
  · exact ⟨nft', hz, rfl⟩

theorem Undisturbed.of_put {nft : NftInfo} (hxy : x ≠ y)
    (howner : s'.owner = Function.update s.owner y (some a)) (hnfts : s'.nfts = s.nfts.insert y nft)
    (hnotes : SameNotes x s s') : Undisturbed x s s' :=
  ⟨hnotes, by rw [hnfts, StorageMap.insert_of_ne hxy], by rw [howner, Function.update_of_ne hxy]⟩

theorem Undisturbed.of_quiet (h : Quiet s s') (hnotes : SameNotes x s s') : Undisturbed x s s' :=
  ⟨hnotes, by rw [h.nfts], by rw [h.owner]⟩

theorem Noted.undisturbed (h : Noted y s s') (hyx : y ≠ x) : Undisturbed x s s' :=
  .of_quiet h.toQuiet (h.notes x hyx.symm)

theorem Undisturbed.of_wired {k : NftKey × BaseId × SlotId} {r : Option ResourceId} (hxy : x ≠ y)
    (h : Wired y k r s s') : Undisturbed x s s' :=
  ⟨h.notes x, by rw [h.nfts, StorageMap.mutate_of_ne hxy], by rw [h.owner]⟩

/-- What is not destroyed is as it was. -/
theorem Undisturbed.of_destroyed {q : Option NftKey} (h : Destroyed y q s s')
    (hx : ¬ Below s y x) (howner : s'.owner x = s.owner x) : Undisturbed x s s' :=
  ⟨h.notes x hx, h.nfts_else x hx, howner⟩

end Rmrk
