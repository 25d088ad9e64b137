import Mathlib.Data.Nat.Notation
/-!
# Types of the RMRK pallets

The data of the `rmrk-traits` crate and of `rmrk-market`'s `types`, field
by field. Identifiers are `u32`. Bounded vectors are lists: their bounds
are enforced where an extrinsic is decoded and nothing past that point
reads them.
-/

namespace Rmrk

/-! ## Identifiers -/

abbrev CollectionId := UInt32
abbrev ResourceId := UInt32
abbrev NftId := UInt32
abbrev BaseId := UInt32
abbrev SlotId := UInt32
abbrev PartId := UInt32
abbrev ZIndex := UInt32

/-- `(CollectionId, NftId)`, the key of an NFT. -/
abbrev NftKey := CollectionId × NftId

/-- `BoundedVec<u8, _>`. -/
abbrev BoundedString := List UInt8

/-- Parts per million. -/
abbrev Permill := UInt32

abbrev Balance := ℕ
abbrev BlockNumber := ℕ

/-- `AccountId32`: 32 raw bytes. -/
structure AccountId where
  bytes : List UInt8
  length_eq : bytes.length = 32
  deriving DecidableEq

/-! ## Collections and NFTs -/

structure CollectionInfo where
  issuer : AccountId
  metadata : BoundedString
  max : Option UInt32
  symbol : BoundedString
  nftsCount : UInt32
  deriving DecidableEq

/-- The two ways a call names an owner. -/
inductive AccountIdOrCollectionNftTuple where
  | accountId (id : AccountId)
  | collectionAndNftTuple (collectionId : CollectionId) (nftId : NftId)
  deriving DecidableEq

structure RoyaltyInfo where
  recipient : AccountId
  amount : Permill
  deriving DecidableEq

structure NftInfo where
  owner : AccountIdOrCollectionNftTuple
  royalty : Option RoyaltyInfo
  metadata : BoundedString
  equipped : Bool
  pending : Bool
  transferable : Bool
  deriving DecidableEq

/-! ## Resources -/

structure BasicResource where
  src : Option BoundedString
  metadata : Option BoundedString
  license : Option BoundedString
  thumb : Option BoundedString
  deriving DecidableEq

structure ComposableResource where
  parts : List PartId
  base : BaseId
  src : Option BoundedString
  metadata : Option BoundedString
  slot : Option (BaseId × SlotId)
  license : Option BoundedString
  thumb : Option BoundedString
  deriving DecidableEq

structure SlotResource where
  base : BaseId
  src : Option BoundedString
  metadata : Option BoundedString
  slot : SlotId
  license : Option BoundedString
  thumb : Option BoundedString
  deriving DecidableEq

inductive ResourceTypes where
  | basic (r : BasicResource)
  | composable (r : ComposableResource)
  | slot (r : SlotResource)
  deriving DecidableEq

structure ResourceInfo where
  id : ResourceId
  resource : ResourceTypes
  pending : Bool
  pendingRemoval : Bool
  deriving DecidableEq

/-! ## Bases, parts and themes -/

structure FixedPart where
  id : PartId
  z : ZIndex
  src : BoundedString
  deriving DecidableEq

inductive EquippableList where
  | all
  | empty
  | custom (collections : List CollectionId)
  deriving DecidableEq

structure SlotPart where
  id : PartId
  equippable : EquippableList
  src : Option BoundedString
  z : ZIndex
  deriving DecidableEq

inductive PartType where
  | fixedPart (p : FixedPart)
  | slotPart (p : SlotPart)
  deriving DecidableEq

structure BaseInfo where
  issuer : AccountId
  baseType : BoundedString
  symbol : BoundedString
  parts : List PartType
  deriving DecidableEq

structure ThemeProperty where
  key : BoundedString
  value : BoundedString
  deriving DecidableEq

structure Theme where
  name : BoundedString
  properties : List ThemeProperty
  inherit : Bool
  deriving DecidableEq

/-! ## Listings and offers -/

structure ListInfo where
  listedBy : AccountId
  amount : Balance
  expires : Option BlockNumber
  deriving DecidableEq

structure Offer where
  maker : AccountId
  amount : Balance
  expires : Option BlockNumber
  deriving DecidableEq

/-! ## Errors -/

namespace Core

/-- `pallet_rmrk_core::Error`, the variants the pallet raises. -/
inductive Error where
  | noAvailableCollectionId | noAvailableResourceId | noAvailableNftId
  | collectionUnknown | noPermission | noWitness | collectionNotEmpty
  | collectionFullOrLocked | cannotSendToDescendentOrSelf | tooManyRecursions
  | cannotAcceptNonOwnedNft | cannotRejectNonOwnedNft | cannotRejectNonPendingNft
  | resourceDoesntExist | resourceNotPending | nonTransferable | cannotSendEquippedItem
  deriving DecidableEq

end Core

namespace Equip

/-- `pallet_rmrk_equip::Error`, the variants the pallet raises. -/
inductive Error where
  | permissionError | itemDoesntExist | equipperDoesntExist | noAvailableBaseId
  | mustBeDirectParent | partDoesntExist | baseDoesntExist | cantEquipFixedPart
  | noResourceForThisBaseFoundOnNft | collectionNotEquippable | itemHasNoResourceToEquipThere
  | noEquippableOnFixedPart | needsDefaultThemeFirst | alreadyEquipped | tooManyProperties
  deriving DecidableEq

end Equip

namespace Market

/-- `pallet_rmrk_market::Error`, the variants the pallet raises. -/
inductive Error where
  | noPermission | tokenNotForSale | cannotWithdrawOffer | cannotUnlistToken
  | cannotOfferOnOwnToken | cannotBuyOwnToken | unknownOffer | cannotListNftOwnedByNft
  | tokenDoesNotExist | offerTooLow | alreadyOffered | offerHasExpired | listingHasExpired
  | priceDiffersFromExpected
  deriving DecidableEq

end Market

/-- `DispatchError`. The pallets raise `Locked` of `pallet_uniques`
themselves; what else comes from outside them is `external`. -/
inductive DispatchError where
  | core (e : Core.Error)
  | equip (e : Equip.Error)
  | market (e : Market.Error)
  | locked
  | overflow
  | external (pallet error : ℕ)
  deriving DecidableEq

/-- How a call can fail to return `Ok`: with an error, or by recursing
without end. -/
inductive Abort where
  | err (e : DispatchError)
  | diverge
  deriving DecidableEq

instance : Coe Core.Error Abort := ⟨fun e => .err (.core e)⟩
instance : Coe Equip.Error Abort := ⟨fun e => .err (.equip e)⟩
instance : Coe Market.Error Abort := ⟨fun e => .err (.market e)⟩
instance : Coe DispatchError Abort := ⟨.err⟩

/-! ## Arithmetic -/

/-- `u32::checked_add`. -/
def checkedAdd (a b : UInt32) : Option UInt32 :=
  if a.toNat + b.toNat < UInt32.size then some (a + b) else none

/-- `u32::saturating_dec`. -/
def saturatingDec (a : UInt32) : UInt32 :=
  if a = 0 then 0 else a - 1

end Rmrk
