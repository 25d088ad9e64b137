import Rmrk.Common.Effect
import Rmrk.Common.StorageMap
import Rmrk.Common.Walk
import Rmrk.Model.Account
import Rmrk.Model.Config
/-!
# The storage of the runtime

The storage items of the three pallets, under their own names, the
storage of the pallets they call, and the block number. Events are not
kept: nothing reads them.
-/

namespace Rmrk

structure State (W : Type) where
  -- `rmrk-core`
  nextNftId : CollectionId → NftId
  collectionIndex : CollectionId
  nextResourceId : NftKey → ResourceId
  collections : StorageMap CollectionId CollectionInfo
  nfts : StorageMap NftKey NftInfo
  priorities : StorageMap (NftKey × ResourceId) UInt32
  /-- The second keys present under a first key. -/
  children : NftKey → Finset NftKey
  resources : StorageMap (NftKey × ResourceId) ResourceInfo
  equippableBases : StorageMap (NftKey × BaseId) Unit
  equippableSlots : StorageMap (NftKey × ResourceId × BaseId × SlotId) Unit
  properties : StorageMap (CollectionId × Option NftId × BoundedString) BoundedString
  lock : NftKey → Bool
  -- `rmrk-equip`
  bases : StorageMap BaseId BaseInfo
  parts : StorageMap (BaseId × PartId) PartType
  nextBaseId : BaseId
  equippings : StorageMap (NftKey × BaseId × SlotId) ResourceId
  /-- Its entries, each key once. -/
  themes : List ((BaseId × BoundedString × BoundedString) × BoundedString)
  -- `rmrk-market`
  listedNfts : StorageMap NftKey ListInfo
  offers : StorageMap (NftKey × AccountId) Offer
  -- the rest of the runtime
  ext : W
  blockNumber : BlockNumber

variable {W : Type}

/-- A dispatchable, or a function it calls. -/
abbrev M (W : Type) := EStateM Abort (State W)

open Effect

/-- The storage before the first extrinsic. -/
def genesis (w : W) : State W where
  nextNftId _ := 0
  collectionIndex := 0
  nextResourceId _ := 0
  collections _ := none
  nfts _ := none
  priorities _ := none
  children _ := ∅
  resources _ := none
  equippableBases _ := none
  equippableSlots _ := none
  properties _ := none
  lock _ := false
  bases _ := none
  parts _ := none
  nextBaseId := 0
  equippings _ := none
  themes := []
  listedNfts _ := none
  offers _ := none
  ext := w
  blockNumber := 0

variable [Config W]

/-- The owner `pallet_uniques` has for an NFT. -/
def State.owner (s : State W) (x : NftKey) : Option AccountId := Uniques.owner s.ext x

/-- **The parent of an NFT**: the NFT whose virtual account owns it. -/
def State.parent (s : State W) (x : NftKey) : Option NftKey :=
  (s.owner x).bind decodeNftAccountId

/-- A call into another pallet. -/
def external (f : W → Except DispatchError W) : M W Unit := fun s =>
  match f s.ext with
  | .ok w => .ok () { s with ext := w }
  | .error e => .error e s

omit [Config W] in
@[simp] theorem external_ok {f : W → Except DispatchError W} {s s' : State W} {u : Unit} :
    external f s = .ok u s' ↔ ∃ w, f s.ext = .ok w ∧ { s with ext := w } = s' := by
  unfold external
  cases h : f s.ext <;> simp

omit [Config W] in
@[simp] theorem external_bind_ok {f : W → Except DispatchError W} {s s' : State W} {β : Type}
    {g : Unit → M W β} {b : β} :
    (external f >>= g) s = .ok b s' ↔
      ∃ w, f s.ext = .ok w ∧ g () { s with ext := w } = .ok b s' := by
  rw [bind_ok]
  simp only [external_ok]
  constructor
  · rintro ⟨_, _, ⟨w, hw, rfl⟩, h⟩
    exact ⟨w, hw, h⟩
  · rintro ⟨w, hw, h⟩
    exact ⟨(), _, ⟨w, hw, rfl⟩, h⟩

/-! ## Looking up the owner at the top

The two recursions of `rmrk-core` have no bound of their own. There are
`2 ^ 64` keys, so a call that has not returned within as many calls never
does. -/

/-- The number of keys. -/
def keyCount : ℕ := 18446744073709551616

/-- One call of `lookup_root_owner`. -/
def lookupStep (s : State W) (x : NftKey) : Except Core.Error (AccountId × NftKey) ⊕ NftKey :=
  match s.owner x with
  | none => .inl (.error .noAvailableNftId)
  | some owner =>
    match decodeNftAccountId owner with
    | none => .inl (.ok (owner, x))
    | some y => .inr y

/-- `lookup_root_owner`. -/
def lookupRootOwner (x : NftKey) : M W (AccountId × NftKey) := do
  let s ← get
  match Walk.run (lookupStep s) keyCount x with
  | some (.ok r) => pure r
  | some (.error e) => throw (e : Abort)
  | none => throw .diverge

/-- One call of `is_x_descendent_of_y`. -/
def descendentStep (s : State W) (y : NftKey) (x : NftKey) : Bool ⊕ NftKey :=
  match s.owner x with
  | none => .inl false
  | some owner =>
    match decodeNftAccountId owner with
    | none => .inl false
    | some z => if z = y then .inl true else .inr z

/-- `is_x_descendent_of_y`. -/
def isXDescendentOfY (x y : NftKey) : M W Bool := do
  let s ← get
  match Walk.run (descendentStep s y) keyCount x with
  | some b => pure b
  | none => throw .diverge

end Rmrk
