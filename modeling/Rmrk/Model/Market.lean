import Rmrk.Model.Equip
/-!
# `rmrk-market`

The dispatchables of `lib.rs` and their helpers.
-/

namespace Rmrk

namespace Market

open Effect

variable {W : Type} [Config W]

/-- `is_nft_listed`. -/
def isNftListed (s : State W) (x : NftKey) : Bool := (s.listedNfts x).isSome

/-- `has_active_offer`. -/
def hasActiveOffer (s : State W) (x : NftKey) (sender : AccountId) : Bool :=
  (s.offers (x, sender)).isSome

/-- `is_nft_owned_by_nft`. -/
def isNftOwnedByNft (s : State W) (x : NftKey) : Bool := (s.parent x).isSome

/-- A listing or an offer that expires does so at its block. -/
def expired (s : State W) (expires : Option BlockNumber) : Bool :=
  match expires with
  | some expires => decide (expires ≤ s.blockNumber)
  | none => false

/-- What `do_buy` charges: the amount of the buyer's offer, which stays
stored, or that of the owner's listing, which is taken. -/
def listPrice (buyer owner : AccountId) (x : NftKey) (isOffer : Bool) : M W Balance := do
  let s ← get
  if isOffer then do
    let offer ← okOr (s.offers (x, buyer)) Error.unknownOffer
    pure offer.amount
  else do
    let listInfo ← okOr (s.listedNfts x) Error.tokenNotForSale
    update fun s => { s with listedNfts := s.listedNfts.remove x }
    ensure (listInfo.listedBy = owner) Error.tokenNotForSale
    ensure (expired s listInfo.expires = false) Error.listingHasExpired
    pure listInfo.amount

/-- `do_buy`. -/
def doBuy (buyer : AccountId) (x : NftKey) (amount : Option Balance) (isOffer : Bool) :
    M W Unit := do
  let s ← get
  let owner ← okOr (s.owner x) Error.tokenDoesNotExist
  ensure (buyer ≠ owner) Error.cannotBuyOwnToken
  let price ← listPrice buyer owner x isOffer
  match amount with
  | some amount => ensure (price = amount) Error.priceDiffersFromExpected
  | none => pure ()
  Core.setLock x false
  external fun w => Currency.transfer w buyer owner price .keepAlive
  Core.send owner x (.accountId buyer)

/-! ## Dispatchables -/

/-- `buy`. -/
def buy (sender : AccountId) (x : NftKey) (amount : Option Balance) : M W Unit :=
  transactional (doBuy sender x amount false)

/-- `list`. -/
def list (sender : AccountId) (x : NftKey) (amount : Balance) (expires : Option BlockNumber) :
    M W Unit :=
  transactional do
    let s ← get
    let owner ← okOr (s.owner x) Error.tokenDoesNotExist
    ensure (isNftOwnedByNft s x = false) Error.cannotListNftOwnedByNft
    ensure (sender = owner) Error.noPermission
    let nft ← okOr (s.nfts x) Error.tokenDoesNotExist
    Core.checkIsTransferable nft
    Core.setLock x true
    if isNftListed s x then
      update fun s => { s with listedNfts := s.listedNfts.remove x }
    else pure ()
    update fun s => { s with
      listedNfts := s.listedNfts.insert x { listedBy := sender, amount, expires } }

/-- `unlist`. -/
def unlist (sender : AccountId) (x : NftKey) : M W Unit :=
  transactional do
    let s ← get
    ensure (isNftListed s x = true) Error.cannotUnlistToken
    let owner ← okOr (s.owner x) Error.tokenDoesNotExist
    ensure (sender = owner) Error.noPermission
    Core.setLock x false
    update fun s => { s with listedNfts := s.listedNfts.remove x }

/-- `make_offer`. -/
def makeOffer (sender : AccountId) (x : NftKey) (amount : Balance)
    (expires : Option BlockNumber) : M W Unit :=
  transactional do
    ensure (Config.minimumOfferAmount W ≤ amount) Error.offerTooLow
    let s ← get
    let owner ← okOr (s.owner x) Error.tokenDoesNotExist
    ensure (sender ≠ owner) Error.cannotOfferOnOwnToken
    ensure (hasActiveOffer s x sender = false) Error.alreadyOffered
    external fun w => Currency.reserve w sender amount
    update fun s => { s with
      offers := s.offers.insert (x, sender) { maker := sender, amount, expires } }

/-- `withdraw_offer`. The entry is written back, as taken, once the
closure over it has returned. -/
def withdrawOffer (sender : AccountId) (x : NftKey) : M W Unit :=
  transactional do
    let s ← get
    let offer ← okOr (s.offers (x, sender)) Error.unknownOffer
    let owner ← okOr (s.owner x) Error.tokenDoesNotExist
    ensure (sender = owner ∨ sender = offer.maker) Error.cannotWithdrawOffer
    external fun w => .ok (Currency.unreserve w offer.maker offer.amount)
    update fun s => { s with offers := s.offers.remove (x, sender) }

/-- `accept_offer`. The entry is written back, as taken, once the closure
over it has returned: `do_buy` still finds it. -/
def acceptOffer (sender : AccountId) (x : NftKey) (offerer : AccountId) : M W Unit :=
  transactional do
    let s ← get
    let owner ← okOr (s.owner x) Error.tokenDoesNotExist
    ensure (sender = owner) Error.noPermission
    let offer ← okOr (s.offers (x, offerer)) Error.unknownOffer
    ensure (expired s offer.expires = false) Error.offerHasExpired
    external fun w => .ok (Currency.unreserve w offer.maker offer.amount)
    doBuy offer.maker x none true
    update fun s => { s with offers := s.offers.remove (x, offerer) }

end Market

end Rmrk
