import Rmrk.Model.State
/-!
# `rmrk-core`

The functions of `functions.rs` and, over them, the dispatchables of
`lib.rs`, statement for statement. A dispatchable takes its signer where
the source takes an origin.
-/

namespace Rmrk

namespace Core

open Effect

variable {W : Type} [Config W]

/-! ## Locks, counters, children -/

/-- `Locker::is_locked`. -/
def isLocked (s : State W) (x : NftKey) : Bool := s.lock x

/-- `set_lock`. -/
def setLock (x : NftKey) (lockStatus : Bool) : M W Unit :=
  update fun s => { s with lock := Function.update s.lock x lockStatus }

/-- `get_next_nft_id`. -/
def getNextNftId (collectionId : CollectionId) : M W NftId := do
  let s ← get
  let currentId := s.nextNftId collectionId
  let id ← okOr (checkedAdd currentId 1) Error.noAvailableNftId
  update fun s => { s with nextNftId := Function.update s.nextNftId collectionId id }
  pure currentId

/-- `get_next_resource_id`. -/
def getNextResourceId (x : NftKey) : M W ResourceId := do
  let s ← get
  let currentId := s.nextResourceId x
  let id ← okOr (checkedAdd currentId 1) Error.noAvailableResourceId
  update fun s => { s with nextResourceId := Function.update s.nextResourceId x id }
  pure currentId

/-- `add_child`. -/
def addChild (parent child : NftKey) : M W Unit :=
  update fun s => { s with
    children := Function.update s.children parent (insert child (s.children parent)) }

/-- `remove_child`. -/
def removeChild (parent child : NftKey) : M W Unit :=
  update fun s => { s with
    children := Function.update s.children parent ((s.children parent).erase child) }

/-- `check_is_transferable`. -/
def checkIsTransferable (nft : NftInfo) : M W Unit :=
  ensure (nft.transferable = true) Error.nonTransferable

/-- `check_is_not_equipped`. -/
def checkIsNotEquipped (nft : NftInfo) : M W Unit :=
  ensure (nft.equipped = false) Error.cannotSendEquippedItem

/-! ## `Priority` -/

/-- The loop of `priority_set`, from `priority_index` on. -/
def insertPriorities (x : NftKey) (priorityIndex : UInt32) : List ResourceId → M W Unit
  | [] => pure ()
  | resourceId :: priorities => do
      update fun s => { s with priorities := s.priorities.insert (x, resourceId) priorityIndex }
      insertPriorities x (priorityIndex + 1) priorities

/-- `priority_set`. -/
def prioritySet (sender : AccountId) (x : NftKey) (priorities : List ResourceId) :
    M W Unit := do
  let (rootOwner, _) ← lookupRootOwner x
  ensure (sender = rootOwner) Error.noPermission
  let s ← get
  ensure (isLocked s x = false) DispatchError.locked
  update fun s => { s with priorities := s.priorities.removePrefix x }
  insertPriorities x 0 priorities

/-! ## `Property` -/

/-- `property_set`. -/
def propertySet (sender : AccountId) (collectionId : CollectionId) (maybeNftId : Option NftId)
    (key value : BoundedString) : M W Unit := do
  let s ← get
  let collection ← okOr (s.collections collectionId) Error.collectionUnknown
  ensure (collection.issuer = sender) Error.noPermission
  match maybeNftId with
  | some nftId => do
      ensure (isLocked s (collectionId, nftId) = false) DispatchError.locked
      let (rootOwner, _) ← lookupRootOwner (collectionId, nftId)
      ensure (rootOwner = collection.issuer) Error.noPermission
  | none => pure ()
  update fun s => { s with
    properties := s.properties.insert (collectionId, maybeNftId, key) value }

/-! ## `Resource` -/

/-- The index entries `resource_add` makes for a resource. -/
def indexResource (x : NftKey) (resourceId : ResourceId) (resource : ResourceTypes) :
    M W Unit :=
  match resource with
  | .basic _ => pure ()
  | .composable r => do
      update fun s => { s with equippableBases := s.equippableBases.insert (x, r.base) () }
      match r.slot with
      | some (base, slot) =>
          update fun s => { s with
            equippableSlots := s.equippableSlots.insert (x, resourceId, base, slot) () }
      | none => pure ()
  | .slot r =>
      update fun s => { s with
        equippableSlots := s.equippableSlots.insert (x, resourceId, r.base, r.slot) () }

/-- `resource_add`. A resource somebody else's NFT is given waits for its
owner, except on mint. -/
def resourceAdd (sender : AccountId) (x : NftKey) (resource : ResourceTypes)
    (addingOnMint : Bool) : M W ResourceId := do
  let s ← get
  let collection ← okOr (s.collections x.1) Error.collectionUnknown
  let resourceId ← getNextResourceId x
  ensure (collection.issuer = sender) Error.noPermission
  let (rootOwner, _) ← lookupRootOwner x
  ensure (isLocked s x = false) DispatchError.locked
  indexResource x resourceId resource
  let pending := decide (rootOwner ≠ sender) && !addingOnMint
  let res : ResourceInfo := { id := resourceId, pending, pendingRemoval := false, resource }
  update fun s => { s with resources := s.resources.insert (x, resourceId) res }
  pure resourceId

/-- `resource_remove`. The issuer removes a resource of an NFT it owns at
the root, and asks for the removal of any other. -/
def resourceRemove (sender : AccountId) (x : NftKey) (resourceId : ResourceId) : M W Unit := do
  let s ← get
  let collection ← okOr (s.collections x.1) Error.collectionUnknown
  let (rootOwner, _) ← lookupRootOwner x
  ensure (collection.issuer = sender) Error.noPermission
  ensure ((s.resources (x, resourceId)).isSome = true) Error.resourceDoesntExist
  if rootOwner = sender then
    update fun s => { s with resources := s.resources.remove (x, resourceId) }
  else
    update fun s => { s with
      resources := s.resources.mutate (x, resourceId) fun r => { r with pendingRemoval := true } }

/-- `accept_removal`. -/
def acceptRemoval (sender : AccountId) (x : NftKey) (resourceId : ResourceId) : M W Unit := do
  let s ← get
  let (rootOwner, _) ← lookupRootOwner x
  ensure (rootOwner = sender) Error.noPermission
  let res ← okOr (s.resources (x, resourceId)) Error.resourceDoesntExist
  ensure (res.pendingRemoval = true) Error.resourceNotPending
  update fun s => { s with resources := s.resources.remove (x, resourceId) }

/-! ## `Collection` -/

/-- `collection_create`. -/
def collectionCreate (issuer : AccountId) (metadata : BoundedString) (max : Option UInt32)
    (symbol : BoundedString) : M W CollectionId := do
  let s ← get
  let id := s.collectionIndex
  ensure (id ≠ 4294967295) Error.noAvailableCollectionId
  update fun s => { s with collectionIndex := id + 1 }
  let collection : CollectionInfo := { issuer, metadata, max, symbol, nftsCount := 0 }
  update fun s => { s with collections := s.collections.insert id collection }
  pure id

/-- `collection_burn`. -/
def collectionBurn (collectionId : CollectionId) : M W Unit := do
  let s ← get
  let collection ← okOr (s.collections collectionId) Error.collectionUnknown
  ensure (collection.nftsCount = 0) Error.collectionNotEmpty
  update fun s => { s with collections := s.collections.remove collectionId }

/-- `collection_change_issuer`. -/
def collectionChangeIssuer (collectionId : CollectionId) (newIssuer : AccountId) :
    M W (AccountId × CollectionId) := do
  let s ← get
  ensure ((s.collections collectionId).isSome = true) Error.noAvailableCollectionId
  update fun s => { s with
    collections := s.collections.mutate collectionId fun c => { c with issuer := newIssuer } }
  pure (newIssuer, collectionId)

/-- `collection_lock`. -/
def collectionLock (sender : AccountId) (collectionId : CollectionId) :
    M W CollectionId := do
  let s ← get
  let collection ← okOr (s.collections collectionId) Error.collectionUnknown
  ensure (collection.issuer = sender) Error.noPermission
  let locked := { collection with max := some collection.nftsCount }
  update fun s => { s with collections := s.collections.insert collectionId locked }
  pure collectionId

/-! ## `Nft` -/

/-- The royalty of a mint: with an amount and no recipient it goes to
`default`. -/
def royaltyInfo (royaltyRecipient : Option AccountId) (royaltyAmount : Option Permill)
    (default : AccountId) : Option RoyaltyInfo :=
  royaltyAmount.map fun amount =>
    match royaltyRecipient with
    | some recipient => { recipient, amount }
    | none => { recipient := default, amount }

/-- The checks both mints make first: the next id, and that it is below
the collection's maximum. -/
def claimNftId (collectionId : CollectionId) : M W (NftId × CollectionInfo) := do
  let nftId ← getNextNftId collectionId
  let s ← get
  let collection ← okOr (s.collections collectionId) Error.collectionUnknown
  match collection.max with
  | some max => ensure (nftId < max) Error.collectionFullOrLocked
  | none => pure ()
  pure (nftId, collection)

/-- The writes both mints make last: the record, and the collection's
count. -/
def recordNft (x : NftKey) (collection : CollectionInfo) (nft : NftInfo) : M W Unit := do
  update fun s => { s with nfts := s.nfts.insert x nft }
  let nftsCount ← okOr (checkedAdd collection.nftsCount 1) DispatchError.overflow
  let s ← get
  let current ← okOr (s.collections x.1) Error.collectionUnknown
  update fun s => { s with collections := s.collections.insert x.1 { current with nftsCount } }

/-- `nft_mint`. -/
def nftMint (sender owner : AccountId) (collectionId : CollectionId)
    (royaltyRecipient : Option AccountId) (royaltyAmount : Option Permill)
    (metadata : BoundedString) (transferable : Bool) : M W NftKey := do
  let (nftId, collection) ← claimNftId collectionId
  let nft : NftInfo :=
    { owner := .accountId owner
      royalty := royaltyInfo royaltyRecipient royaltyAmount sender
      metadata
      equipped := false
      pending := decide (owner ≠ sender)
      transferable }
  recordNft (collectionId, nftId) collection nft
  pure (collectionId, nftId)

/-- `nft_mint_directly_to_nft`. -/
def nftMintDirectlyToNft (sender : AccountId) (owner : NftKey) (collectionId : CollectionId)
    (royaltyRecipient : Option AccountId) (royaltyAmount : Option Permill)
    (metadata : BoundedString) (transferable : Bool) : M W NftKey := do
  let (nftId, collection) ← claimNftId collectionId
  let (rootowner, _) ← lookupRootOwner owner
  let nft : NftInfo :=
    { owner := .collectionAndNftTuple owner.1 owner.2
      royalty := royaltyInfo royaltyRecipient royaltyAmount rootowner
      metadata
      equipped := false
      pending := decide (rootowner ≠ sender)
      transferable }
  recordNft (collectionId, nftId) collection nft
  pure (collectionId, nftId)

/-- One key `drain_prefix` of `Children` comes to: taken out and handed to
`body` if it is present. -/
def drainChild (x : NftKey) (body : NftKey → M W Unit) (y : NftKey) : M W Unit := do
  let s ← get
  if y ∈ s.children x then
    removeChild x y
    body y
  else pure ()

/-- `drain_prefix` of `Children`. Nothing `nft_burn` does puts a key in,
so storage comes to no key that was not there at the start. -/
def drainChildren (x : NftKey) (body : NftKey → M W Unit) (ys : List NftKey) : M W Unit :=
  each (drainChild x body) ys

/-- Take an NFT out of the children of the parent its record names. -/
def unlinkRecorded (x : NftKey) : M W Unit := do
  let s ← get
  match s.nfts x with
  | some nft =>
    match nft.owner with
    | .collectionAndNftTuple parentCol parentNft => removeChild (parentCol, parentNft) x
    | .accountId _ => pure ()
  | none => pure ()

/-- `nft_burn`, with `max_recursions` as the bound of the recursion. -/
def nftBurn : ℕ → NftKey → M W Unit
  | 0, _ => throw (Error.tooManyRecursions : Abort)
  | maxRecursions + 1, x => do
      unlinkRecorded x
      update fun s => { s with
        nfts := s.nfts.remove x
        resources := s.resources.removePrefix x }
      let s ← get
      drainChildren x (nftBurn maxRecursions) (Config.iterKeys W (s.children x))
      let s ← get
      let collection ← okOr (s.collections x.1) Error.collectionUnknown
      let fewer := { collection with nftsCount := saturatingDec collection.nftsCount }
      update fun s => { s with collections := s.collections.insert x.1 fewer }

/-- What both `nft_send` and `nft_accept` ask of a target NFT: that it
exists, and is neither the NFT itself nor below it. It is answered with
the target's root owner. -/
def checkTarget (x target : NftKey) : M W AccountId := do
  let s ← get
  ensure ((s.nfts target).isSome = true) Error.noAvailableNftId
  ensure (x ≠ target) Error.cannotSendToDescendentOrSelf
  let below ← isXDescendentOfY target x
  ensure (below = false) Error.cannotSendToDescendentOrSelf
  let (recipientRootOwner, _) ← lookupRootOwner target
  pure recipientRootOwner

/-- The account `nft_send` transfers to, and whether its owner has to
approve. -/
def sendTarget (x : NftKey) (rootOwner : AccountId) (newOwner : AccountIdOrCollectionNftTuple) :
    M W (AccountId × Bool) :=
  match newOwner with
  | .accountId id => pure (id, false)
  | .collectionAndNftTuple cid nid => do
      let recipientRootOwner ← checkTarget x (cid, nid)
      pure (nftToAccountId (cid, nid), decide (recipientRootOwner ≠ rootOwner))

/-- The index update of `nft_send`: out of the old parent's children, into
the new one's, where there are such parents. -/
def relinkChild (x : NftKey) (oldOwner newOwner : AccountId) : M W Unit := do
  match decodeNftAccountId oldOwner with
  | some parent => removeChild parent x
  | none => pure ()
  match decodeNftAccountId newOwner with
  | some parent => addChild parent x
  | none => pure ()

/-- The record `nft_send` leaves. Where approval is required the stored
one is marked pending, and the copy the new owner is written to is not
stored. -/
def recordSend (x : NftKey) (sendingNft : NftInfo) (approvalRequired : Bool) : M W Unit :=
  if approvalRequired then
    update fun s => { s with nfts := s.nfts.mutate x fun nft => { nft with pending := true } }
  else
    update fun s => { s with nfts := s.nfts.insert x sendingNft }

/-- `nft_send`. -/
def nftSend (sender : AccountId) (x : NftKey) (newOwner : AccountIdOrCollectionNftTuple) :
    M W (AccountId × Bool) := do
  let s ← get
  let parent ← okOr (s.owner x) Error.noAvailableNftId
  let (rootOwner, _) ← lookupRootOwner x
  ensure (sender = rootOwner) Error.noPermission
  let sendingNft ← okOr (s.nfts x) Error.noAvailableNftId
  checkIsTransferable sendingNft
  checkIsNotEquipped sendingNft
  let (newOwnerAccount, approvalRequired) ← sendTarget x rootOwner newOwner
  recordSend x { sendingNft with owner := newOwner } approvalRequired
  relinkChild x parent newOwnerAccount
  pure (newOwnerAccount, approvalRequired)

/-- The account `nft_accept` transfers to. -/
def acceptTarget (x : NftKey) (rootOwner : AccountId)
    (newOwner : AccountIdOrCollectionNftTuple) : M W AccountId :=
  match newOwner with
  | .accountId id => pure id
  | .collectionAndNftTuple cid nid => do
      let recipientRootOwner ← checkTarget x (cid, nid)
      ensure (recipientRootOwner = rootOwner) Error.cannotAcceptNonOwnedNft
      pure (nftToAccountId (cid, nid))

/-- `nft_accept`. -/
def nftAccept (sender : AccountId) (x : NftKey) (newOwner : AccountIdOrCollectionNftTuple) :
    M W AccountId := do
  let (rootOwner, _) ← lookupRootOwner x
  ensure (sender = rootOwner) Error.noPermission
  let s ← get
  let _ ← okOr (s.nfts x) Error.noAvailableNftId
  let newOwnerAccount ← acceptTarget x rootOwner newOwner
  update fun s => { s with nfts := s.nfts.mutate x fun nft => { nft with pending := false } }
  pure newOwnerAccount

/-- `nft_reject`. -/
def nftReject (sender : AccountId) (x : NftKey) (maxRecursions : UInt32) : M W Unit := do
  let (rootOwner, _) ← lookupRootOwner x
  let s ← get
  let nft ← okOr (s.nfts x) Error.noAvailableNftId
  ensure (nft.pending = true) Error.cannotRejectNonPendingNft
  ensure (sender = rootOwner) Error.cannotRejectNonOwnedNft
  match s.parent x with
  | some parent => removeChild parent x
  | none => pure ()
  nftBurn maxRecursions.toNat x

/-! ## Dispatchables -/

/-- The check both mints make of their signer. -/
def checkCollectionOwner (sender : AccountId) (collectionId : CollectionId) : M W Unit := do
  let s ← get
  let collectionIssuer ← okOr (Uniques.collectionOwner s.ext collectionId) Error.collectionUnknown
  ensure (collectionIssuer = sender) Error.noPermission

/-- The at-mint resources. -/
def addResources (sender : AccountId) (x : NftKey) (resources : Option (List ResourceTypes)) :
    M W Unit :=
  each (fun res => do let _ ← resourceAdd sender x res true; pure ()) (resources.getD [])

/-- `mint_nft`. -/
def mintNft (sender : AccountId) (owner : Option AccountId) (collectionId : CollectionId)
    (royaltyRecipient : Option AccountId) (royalty : Option Permill) (metadata : BoundedString)
    (transferable : Bool) (resources : Option (List ResourceTypes)) : M W Unit :=
  transactional do
    checkCollectionOwner sender collectionId
    let nftOwner := owner.getD sender
    let x ← nftMint sender nftOwner collectionId royaltyRecipient royalty metadata transferable
    external fun w => Uniques.doMint w x nftOwner
    addResources sender x resources

/-- `mint_nft_directly_to_nft`. -/
def mintNftDirectlyToNft (sender : AccountId) (owner : NftKey) (collectionId : CollectionId)
    (royaltyRecipient : Option AccountId) (royalty : Option Permill) (metadata : BoundedString)
    (transferable : Bool) (resources : Option (List ResourceTypes)) : M W Unit :=
  transactional do
    checkCollectionOwner sender collectionId
    let x ← nftMintDirectlyToNft sender owner collectionId royaltyRecipient royalty metadata
      transferable
    external fun w => Uniques.doMint w x (nftToAccountId owner)
    addResources sender x resources

/-- `create_collection`. -/
def createCollection (sender : AccountId) (metadata : BoundedString) (max : Option UInt32)
    (symbol : BoundedString) : M W Unit :=
  transactional do
    let collectionId ← collectionCreate sender metadata max symbol
    external fun w => Uniques.doCreateCollection w collectionId sender sender

/-- `burn_nft`. -/
def burnNft (sender : AccountId) (x : NftKey) (maxBurns : UInt32) : M W Unit :=
  transactional do
    let (rootOwner, _) ← lookupRootOwner x
    ensure (sender = rootOwner) Error.noPermission
    nftBurn maxBurns.toNat x
    external fun w => Uniques.doBurn w x

/-- `destroy_collection`. -/
def destroyCollection (sender : AccountId) (collectionId : CollectionId) : M W Unit :=
  transactional do
    collectionBurn collectionId
    let s ← get
    let witness ← okOr (Uniques.getDestroyWitness s.ext collectionId) Error.noWitness
    ensure (witness.items = 0) Error.collectionNotEmpty
    external fun w => Uniques.doDestroyCollection w collectionId witness sender

/-- `send`. -/
def send (sender : AccountId) (x : NftKey) (newOwner : AccountIdOrCollectionNftTuple) :
    M W Unit :=
  transactional do
    let (newOwnerAccount, _) ← nftSend sender x newOwner
    let s ← get
    external fun w => Uniques.doTransfer (isLocked s) w x newOwnerAccount

/-- `accept_nft`. -/
def acceptNft (sender : AccountId) (x : NftKey) (newOwner : AccountIdOrCollectionNftTuple) :
    M W Unit :=
  transactional do
    let newOwnerAccount ← nftAccept sender x newOwner
    let s ← get
    external fun w => Uniques.doTransfer (isLocked s) w x newOwnerAccount

/-- `reject_nft`. -/
def rejectNft (sender : AccountId) (x : NftKey) : M W Unit :=
  transactional do
    nftReject sender x (Config.maxRecursions W)

/-- `change_collection_issuer`. -/
def changeCollectionIssuer (sender : AccountId) (collectionId : CollectionId)
    (newIssuer : Config.Source W) : M W Unit :=
  transactional do
    let s ← get
    let collection ← okOr (s.collections collectionId) Error.collectionUnknown
    ensure (collection.issuer = sender) Error.noPermission
    let newOwner ← ofResult ((Config.lookup newIssuer).mapError Abort.err)
    ensure ((s.collections collectionId).isSome = true) Error.noAvailableCollectionId
    let (newOwner, collectionId) ← collectionChangeIssuer collectionId newOwner
    external fun w => Uniques.transferOwnership w sender collectionId newOwner

/-- `set_property`. -/
def setProperty (sender : AccountId) (collectionId : CollectionId) (maybeNftId : Option NftId)
    (key value : BoundedString) : M W Unit :=
  transactional (propertySet sender collectionId maybeNftId key value)

/-- `lock_collection`. -/
def lockCollection (sender : AccountId) (collectionId : CollectionId) : M W Unit :=
  transactional do
    let _ ← collectionLock sender collectionId

/-- The three dispatchables that add a resource differ in its type only. -/
def addResource (sender : AccountId) (x : NftKey) (resource : ResourceTypes) : M W Unit :=
  transactional do
    let _ ← resourceAdd sender x resource false

/-- `add_basic_resource`. -/
def addBasicResource (sender : AccountId) (x : NftKey) (resource : BasicResource) : M W Unit :=
  addResource sender x (.basic resource)

/-- `add_composable_resource`. -/
def addComposableResource (sender : AccountId) (x : NftKey) (resource : ComposableResource) :
    M W Unit :=
  addResource sender x (.composable resource)

/-- `add_slot_resource`. -/
def addSlotResource (sender : AccountId) (x : NftKey) (resource : SlotResource) : M W Unit :=
  addResource sender x (.slot resource)

/-- `accept_resource`. -/
def acceptResource (sender : AccountId) (x : NftKey) (resourceId : ResourceId) : M W Unit :=
  transactional do
    let s ← get
    let res ← okOr (s.resources (x, resourceId)) Error.resourceDoesntExist
    let (owner, _) ← lookupRootOwner x
    ensure (owner = sender) Error.noPermission
    ensure (res.pending = true) Error.resourceNotPending
    update fun s => { s with
      resources := s.resources.insert (x, resourceId) { res with pending := false } }

/-- `remove_resource`. -/
def removeResource (sender : AccountId) (x : NftKey) (resourceId : ResourceId) : M W Unit :=
  transactional (resourceRemove sender x resourceId)

/-- `accept_resource_removal`. -/
def acceptResourceRemoval (sender : AccountId) (x : NftKey) (resourceId : ResourceId) :
    M W Unit :=
  transactional (acceptRemoval sender x resourceId)

/-- `set_priority`. -/
def setPriority (sender : AccountId) (x : NftKey) (priorities : List ResourceId) : M W Unit :=
  transactional (prioritySet sender x priorities)

end Core

end Rmrk
