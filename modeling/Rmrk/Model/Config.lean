import Mathlib.Data.Finset.Basic
import Mathlib.Logic.Function.Basic
import Rmrk.Model.Types
/-!
# What the pallets are configured with

`pallet_uniques` and the currency are other pallets, reached through
their own storage `W`. They are parameters: the functions the RMRK
pallets call, what can be read off the storage, and what each function
does to it where it returns `Ok`. The runtime's filter closes the calls of
`pallet_uniques` that write the owner of an item or of a collection, and
those it leaves open (`freeze`, `thaw`, `set_team`, `set_accept_ownership`
and the attributes) write none: they are part of what the rest of the
runtime does between two extrinsics.
-/

namespace Rmrk

/-- `pallet_uniques::DestroyWitness`. -/
structure DestroyWitness where
  items : UInt32
  itemMetadatas : UInt32
  attributes : UInt32
  deriving DecidableEq

/-- `pallet_uniques`, as far as the RMRK pallets call it. -/
class Uniques (W : Type) where
  /-- The owner of an item, where it has one. -/
  owner : W → NftKey → Option AccountId
  /-- The owner of a collection, where there is one. -/
  collectionOwner : W → CollectionId → Option AccountId
  getDestroyWitness : W → CollectionId → Option DestroyWitness
  doMint : W → NftKey → AccountId → Except DispatchError W
  /-- The first argument is `T::Locker::is_locked`. -/
  doTransfer : (NftKey → Bool) → W → NftKey → AccountId → Except DispatchError W
  doBurn : W → NftKey → Except DispatchError W
  doCreateCollection : W → CollectionId → AccountId → AccountId → Except DispatchError W
  doDestroyCollection : W → CollectionId → DestroyWitness → AccountId → Except DispatchError W
  transferOwnership : W → AccountId → CollectionId → AccountId → Except DispatchError W
  owner_doMint : ∀ {w w' x a}, doMint w x a = .ok w' →
    owner w' = Function.update (owner w) x (some a)
  owner_doTransfer : ∀ {l w w' x a}, doTransfer l w x a = .ok w' →
    owner w' = Function.update (owner w) x (some a)
  /-- A locked item is not transferred. -/
  unlocked_doTransfer : ∀ {l w w' x a}, doTransfer l w x a = .ok w' → l x = false
  owner_doBurn : ∀ {w w' x}, doBurn w x = .ok w' → owner w' = Function.update (owner w) x none
  owner_doCreateCollection : ∀ {w w' c a b}, doCreateCollection w c a b = .ok w' →
    owner w' = owner w
  /-- The items of a destroyed collection go with it. -/
  owner_doDestroyCollection : ∀ {w w' c d a}, doDestroyCollection w c d a = .ok w' →
    owner w' = fun x => if x.1 = c then none else owner w x
  /-- The witness counts the items of the collection. -/
  owner_of_witness : ∀ {w c d n}, getDestroyWitness w c = some d → d.items = 0 →
    owner w (c, n) = none
  owner_transferOwnership : ∀ {w w' a c b}, transferOwnership w a c b = .ok w' →
    owner w' = owner w

/-- `ExistenceRequirement`. -/
inductive ExistenceRequirement where
  | keepAlive
  | allowDeath
  deriving DecidableEq

/-- `ReservableCurrency`. -/
class Currency (W : Type) where
  free : W → AccountId → Balance
  reserved : W → AccountId → Balance
  reserve : W → AccountId → Balance → Except DispatchError W
  unreserve : W → AccountId → Balance → W
  transfer : W → AccountId → AccountId → Balance → ExistenceRequirement → Except DispatchError W
  free_transfer : ∀ {w w' a b v r}, transfer w a b v r = .ok w' → a ≠ b →
    free w' a + v = free w a ∧ free w' b = free w b + v ∧ ∀ c, c ≠ a → c ≠ b → free w' c = free w c
  reserved_transfer : ∀ {w w' a b v r}, transfer w a b v r = .ok w' → reserved w' = reserved w
  free_reserve : ∀ {w w' a v}, reserve w a v = .ok w' →
    free w' a + v = free w a ∧ ∀ c, c ≠ a → free w' c = free w c
  reserved_reserve : ∀ {w w' a v}, reserve w a v = .ok w' →
    reserved w' = Function.update (reserved w) a (reserved w a + v)
  /-- What is not there is not released. -/
  free_unreserve : ∀ {w a v}, free (unreserve w a v) =
    Function.update (free w) a (free w a + min v (reserved w a))
  reserved_unreserve : ∀ {w a v}, reserved (unreserve w a v) =
    Function.update (reserved w) a (reserved w a - v)

/-- `T: Config` of the three pallets. -/
class Config (W : Type) extends Uniques W, Currency W where
  maxRecursions : UInt32
  minimumOfferAmount : Balance
  maxPropertiesPerTheme : UInt32
  /-- The order storage yields the keys under a prefix in. -/
  iterKeys : Finset NftKey → List NftKey
  /-- `<T::Lookup as StaticLookup>::Source`. -/
  Source : Type
  lookup : Source → Except DispatchError AccountId
  /-- What the rest of the runtime does between two extrinsics. -/
  Elsewhere : W → W → Prop
  mem_iterKeys : ∀ {s x}, x ∈ iterKeys s ↔ x ∈ s
  owner_transfer : ∀ {w w' a b v r}, transfer w a b v r = .ok w' → owner w' = owner w
  owner_reserve : ∀ {w w' a v}, reserve w a v = .ok w' → owner w' = owner w
  owner_unreserve : ∀ {w a v}, owner (unreserve w a v) = owner w
  free_doTransfer : ∀ {l w w' x a}, doTransfer l w x a = .ok w' → free w' = free w
  owner_elsewhere : ∀ {w w'}, Elsewhere w w' → owner w' = owner w

/-- Of what is reserved only the part that is held has changed, where
there was as much reserved as held. -/
def HeldOnly {W : Type} (held reserved : W → AccountId → ℕ) (w w' : W) : Prop :=
  (∀ a, held w a ≤ reserved w a) → ∀ a, reserved w' a + held w a = reserved w a + held w' a

/-- The part of an account's reserved balance that others than the RMRK
pallets hold: the deposits of `pallet_uniques`, and what the rest of the
runtime has reserved. They release what they hold, and nothing else. -/
class Deposits (W : Type) [Config W] where
  held : W → AccountId → Balance
  held_genesis : ∀ {w : W}, (∀ x, Uniques.owner w x = none) →
    (∀ c, Uniques.collectionOwner w c = none) → ∀ a, held w a ≤ Currency.reserved w a
  held_reserve : ∀ {w w' : W} {a v}, Currency.reserve w a v = .ok w' → held w' = held w
  held_unreserve : ∀ {w : W} {a v}, held (Currency.unreserve w a v) = held w
  held_transfer : ∀ {w w' : W} {a b v r}, Currency.transfer w a b v r = .ok w' → held w' = held w
  heldOnly_doMint : ∀ {w w' : W} {x a}, Uniques.doMint w x a = .ok w' →
    HeldOnly held Currency.reserved w w'
  /-- A transfer takes no deposit. -/
  held_doTransfer : ∀ {l} {w w' : W} {x a}, Uniques.doTransfer l w x a = .ok w' → held w' = held w
  reserved_doTransfer : ∀ {l} {w w' : W} {x a}, Uniques.doTransfer l w x a = .ok w' →
    Currency.reserved w' = Currency.reserved w
  heldOnly_doBurn : ∀ {w w' : W} {x}, Uniques.doBurn w x = .ok w' →
    HeldOnly held Currency.reserved w w'
  heldOnly_doCreateCollection : ∀ {w w' : W} {c a b}, Uniques.doCreateCollection w c a b = .ok w' →
    HeldOnly held Currency.reserved w w'
  heldOnly_doDestroyCollection : ∀ {w w' : W} {c d a},
    Uniques.doDestroyCollection w c d a = .ok w' → HeldOnly held Currency.reserved w w'
  heldOnly_transferOwnership : ∀ {w w' : W} {a c b}, Uniques.transferOwnership w a c b = .ok w' →
    HeldOnly held Currency.reserved w w'
  heldOnly_elsewhere : ∀ {w w' : W}, Config.Elsewhere w w' → HeldOnly held Currency.reserved w w'

/-- Who owns a collection in `pallet_uniques` is written by the three
functions that create one, hand one over and destroy one. -/
class CollectionOwners (W : Type) [Config W] : Prop where
  collectionOwner_doMint : ∀ {w w' : W} {x a}, Uniques.doMint w x a = .ok w' →
    Uniques.collectionOwner w' = Uniques.collectionOwner w
  collectionOwner_doTransfer : ∀ {l} {w w' : W} {x a}, Uniques.doTransfer l w x a = .ok w' →
    Uniques.collectionOwner w' = Uniques.collectionOwner w
  collectionOwner_doBurn : ∀ {w w' : W} {x}, Uniques.doBurn w x = .ok w' →
    Uniques.collectionOwner w' = Uniques.collectionOwner w
  collectionOwner_doCreateCollection : ∀ {w w' : W} {c a b},
    Uniques.doCreateCollection w c a b = .ok w' →
    Uniques.collectionOwner w' = Function.update (Uniques.collectionOwner w) c (some a)
  collectionOwner_doDestroyCollection : ∀ {w w' : W} {c d a},
    Uniques.doDestroyCollection w c d a = .ok w' →
    Uniques.collectionOwner w' = Function.update (Uniques.collectionOwner w) c none
  collectionOwner_transferOwnership : ∀ {w w' : W} {a c b},
    Uniques.transferOwnership w a c b = .ok w' →
    Uniques.collectionOwner w' = Function.update (Uniques.collectionOwner w) c (some b)
  collectionOwner_reserve : ∀ {w w' : W} {a v}, Currency.reserve w a v = .ok w' →
    Uniques.collectionOwner w' = Uniques.collectionOwner w
  collectionOwner_unreserve : ∀ {w : W} {a v},
    Uniques.collectionOwner (Currency.unreserve w a v) = Uniques.collectionOwner w
  collectionOwner_transfer : ∀ {w w' : W} {a b v r}, Currency.transfer w a b v r = .ok w' →
    Uniques.collectionOwner w' = Uniques.collectionOwner w
  collectionOwner_elsewhere : ∀ {w w' : W}, Config.Elsewhere w w' →
    Uniques.collectionOwner w' = Uniques.collectionOwner w

/-- `pallet_uniques` where nothing is frozen: an item that is there and is
not locked is transferred. -/
class Transfers (W : Type) [Config W] : Prop where
  doTransfer_ok : ∀ {l} {w : W} {x a}, l x = false → (Uniques.owner w x).isSome = true →
    ∃ w', Uniques.doTransfer l w x a = .ok w'

/-- And an item that is there is burned, locked or not. -/
class Items (W : Type) [Config W] : Prop extends Transfers W where
  doBurn_ok : ∀ {w : W} {x}, (Uniques.owner w x).isSome = true → ∃ w', Uniques.doBurn w x = .ok w'

/-- `pallet_balances` where no lock is on a balance, and `pallet_uniques`
where nothing is frozen. These are then all the reasons for which a payment
that keeps the payer alive is refused, or the transfer of an item. -/
class Payments (W : Type) [Config W] extends Transfers W where
  existentialDeposit : Balance
  /-- What is left to an account is what it has, free and reserved. -/
  transfer_iff : ∀ {w : W} {a b v}, a ≠ b →
    ((∃ w', Currency.transfer w a b v .keepAlive = .ok w') ↔ v = 0 ∨ v ≤ Currency.free w a ∧
      v + existentialDeposit ≤ Currency.free w a + Currency.reserved w a ∧
        existentialDeposit ≤ Currency.free w b + Currency.reserved w b + v)

end Rmrk
