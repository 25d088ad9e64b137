import Rmrk.Model.Core
/-!
# `rmrk-equip`

The functions of `functions.rs` and the dispatchables of `lib.rs`. None of
the dispatchables is transactional: what an error finds written stays
written.
-/

namespace Rmrk

namespace Equip

open Effect

variable {W : Type} [Config W]

/-- `get_next_base_id`. -/
def getNextBaseId : M W BaseId := do
  let s ← get
  let currentId := s.nextBaseId
  let id ← okOr (checkedAdd currentId 1) Error.noAvailableBaseId
  update fun s => { s with nextBaseId := id }
  pure currentId

/-- The identifier of a part, of either kind. -/
def partId : PartType → PartId
  | .slotPart p => p.id
  | .fixedPart p => p.id

/-- `base_create`. -/
def baseCreate (issuer : AccountId) (baseType symbol : BoundedString) (parts : List PartType) :
    M W BaseId := do
  let baseId ← getNextBaseId
  each (fun part => update fun s => { s with
    parts := s.parts.insert (baseId, partId part) part }) parts
  let base : BaseInfo := { issuer, baseType, symbol, parts }
  update fun s => { s with bases := s.bases.insert baseId base }
  pure baseId

/-- `base_change_issuer`. -/
def baseChangeIssuer (baseId : BaseId) (newIssuer : AccountId) : M W (AccountId × BaseId) := do
  let s ← get
  ensure ((s.bases baseId).isSome = true) Error.noAvailableBaseId
  update fun s => { s with
    bases := s.bases.mutate baseId fun b => { b with issuer := newIssuer } }
  pure (newIssuer, baseId)

/-- Set the `equipped` flag of an NFT, where there is one. -/
def setEquipped (item : NftKey) (equipped : Bool) : M W Unit :=
  update fun s => { s with nfts := s.nfts.mutate item fun nft => { nft with equipped } }

/-- Empty a slot, and mark the item the caller names as not equipped. -/
def unequip (item equipper : NftKey) (baseId : BaseId) (slotId : SlotId) : M W Bool := do
  update fun s => { s with equippings := s.equippings.remove (equipper, baseId, slotId) }
  setEquipped item false
  pure false

/-- The collection of an item is on the list of a slot. -/
def isEquippable (list : EquippableList) (collectionId : CollectionId) : Bool :=
  match list with
  | .empty => false
  | .all => true
  | .custom eq => eq.contains collectionId

/-- The checks `do_equip` makes before it fills a slot, and the filling. -/
def fillSlot (issuer : AccountId) (item equipper : NftKey) (resourceId : ResourceId)
    (baseId : BaseId) (slotId : SlotId) (itemOwner equipperOwner : AccountId) : M W Bool := do
  let s ← get
  ensure ((s.nfts equipper).isSome = true) Error.equipperDoesntExist
  let nft ← okOr (s.nfts item) Error.itemDoesntExist
  ensure (nft.equipped = false) Error.alreadyEquipped
  ensure (equipperOwner = issuer) Error.permissionError
  ensure (itemOwner = issuer) Error.permissionError
  ensure (nft.owner = .collectionAndNftTuple equipper.1 equipper.2) Error.mustBeDirectParent
  ensure ((s.equippableBases (equipper, baseId)).isSome = true)
    Error.noResourceForThisBaseFoundOnNft
  ensure ((s.equippableSlots (item, resourceId, baseId, slotId)).isSome = true)
    Error.itemHasNoResourceToEquipThere
  let part ← okOr (s.parts (baseId, slotId)) Error.partDoesntExist
  match part with
  | .fixedPart _ => throw (Error.cantEquipFixedPart : Abort)
  | .slotPart slotPart => do
      ensure (isEquippable slotPart.equippable item.1 = true) Error.collectionNotEquippable
      update fun s => { s with
        equippings := s.equippings.insert (equipper, baseId, slotId) resourceId }
      setEquipped item true
      pure true

/-- `do_equip`: whether it equipped. A slot that is filled is emptied,
whatever item the caller names: for anyone if that item is not there, and
else for the root owner of that item or of the equipper. -/
def doEquip (issuer : AccountId) (item equipper : NftKey) (resourceId : ResourceId)
    (baseId : BaseId) (slotId : SlotId) : M W Bool := do
  let s ← get
  ensure (Core.isLocked s item = false) DispatchError.locked
  ensure (Core.isLocked s equipper = false) DispatchError.locked
  let itemIsEquipped := (s.equippings (equipper, baseId, slotId)).isSome
  let itemExists := (s.nfts item).isSome
  if itemExists = false ∧ itemIsEquipped = true then
    unequip item equipper baseId slotId
  else do
    let (itemOwner, _) ← lookupRootOwner item
    let (equipperOwner, _) ← lookupRootOwner equipper
    if itemIsEquipped = true ∧ (itemOwner = issuer ∨ equipperOwner = issuer) then
      unequip item equipper baseId slotId
    else
      fillSlot issuer item equipper resourceId baseId slotId itemOwner equipperOwner

/-- `do_equippable`. -/
def doEquippable (issuer : AccountId) (baseId : BaseId) (partId : PartId)
    (equippables : EquippableList) : M W Unit := do
  let s ← get
  let base ← okOr (s.bases baseId) Error.baseDoesntExist
  ensure (base.issuer = issuer) Error.permissionError
  let part ← okOr (s.parts (baseId, partId)) Error.partDoesntExist
  match part with
  | .fixedPart _ => throw (Error.noEquippableOnFixedPart : Abort)
  | .slotPart slotPart =>
      update fun s => { s with
        parts := s.parts.insert (baseId, partId)
          (.slotPart { slotPart with equippable := equippables }) }

/-- The bytes of `default`. -/
def defaultName : BoundedString := [100, 101, 102, 97, 117, 108, 116]

/-- `Themes::insert`. -/
def insertTheme (k : BaseId × BoundedString × BoundedString) (v : BoundedString) :
    M W Unit :=
  update fun s => { s with themes := (k, v) :: s.themes.filter (·.1 ≠ k) }

/-- `Themes::iter_prefix_values((base_id, name)).count()`. -/
def themeCount (s : State W) (baseId : BaseId) (name : BoundedString) : ℕ :=
  (s.themes.filter fun e => e.1.1 = baseId ∧ e.1.2.1 = name).length

/-- `add_theme`. -/
def addTheme (issuer : AccountId) (baseId : BaseId) (theme : Theme) : M W Unit := do
  let s ← get
  let base ← okOr (s.bases baseId) Error.baseDoesntExist
  ensure (base.issuer = issuer) Error.permissionError
  let defCount := themeCount s baseId defaultName
  ensure (1 ≤ defCount ∨ theme.name = defaultName) Error.needsDefaultThemeFirst
  each (fun prop => insertTheme (baseId, theme.name, prop.key) prop.value) theme.properties

/-! ## Dispatchables -/

/-- `change_base_issuer`. -/
def changeBaseIssuer (sender : AccountId) (baseId : BaseId) (newIssuer : Config.Source W) :
    M W Unit := do
  let s ← get
  let base ← okOr (s.bases baseId) Error.baseDoesntExist
  ensure (base.issuer = sender) Error.permissionError
  let newOwner ← ofResult ((Config.lookup newIssuer).mapError Abort.err)
  ensure ((s.bases baseId).isSome = true) Error.noAvailableBaseId
  let _ ← baseChangeIssuer baseId newOwner

/-- `equip`. -/
def equip (sender : AccountId) (item equipper : NftKey) (resourceId : ResourceId)
    (base : BaseId) (slot : SlotId) : M W Unit := do
  let _ ← doEquip sender item equipper resourceId base slot

/-- `equippable`. -/
def equippable (sender : AccountId) (baseId : BaseId) (slotId : SlotId)
    (equippables : EquippableList) : M W Unit :=
  doEquippable sender baseId slotId equippables

/-- `theme_add`. -/
def themeAdd (sender : AccountId) (baseId : BaseId) (theme : Theme) : M W Unit := do
  ensure (theme.properties.length ≤ (Config.maxPropertiesPerTheme W).toNat)
    Error.tooManyProperties
  addTheme sender baseId theme

/-- `create_base`. -/
def createBase (sender : AccountId) (baseType symbol : BoundedString) (parts : List PartType) :
    M W Unit := do
  let _ ← baseCreate sender baseType symbol parts

end Equip

end Rmrk
