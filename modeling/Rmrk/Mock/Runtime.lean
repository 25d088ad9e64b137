import Mathlib.Data.List.Sort
import Rmrk.Common.Writes
import Rmrk.Model.System
/-!
# The mock runtime

A runtime to run the pallets on: a `pallet_uniques` that keeps its items
in a list and takes no deposits, balances with an existential deposit of
`1`, and the parameters of the pallets' own mocks. Accounts are looked up
by identity. It satisfies what `Config` asks of the two pallets.
-/

namespace Rmrk

namespace Mock

/-- The storage of `pallet_uniques` and of the currency. -/
structure Storage where
  items : List (NftKey × AccountId)
  collectionOwner : CollectionId → Option AccountId
  /-- `OwnershipAcceptance`: the collection an account is ready to own. -/
  acceptances : AccountId → Option CollectionId
  free : AccountId → Balance
  reserved : AccountId → Balance

/-! ## `pallet_uniques` -/

/-- Whose an item is. -/
def holder (items : List (NftKey × AccountId)) (x : NftKey) : Option AccountId := items.lookup x

/-- The items of a list, with `x` out of them. -/
def without (x : NftKey) (items : List (NftKey × AccountId)) : List (NftKey × AccountId) :=
  items.filter fun e => e.1 ≠ x

/-- Keys are compared as pairs. -/
theorem holder_eq_read : holder = Entries.read := by
  have hbeq : (instBEqProd : BEq NftKey) = instBEqOfDecidableEq :=
    lawful_beq_subsingleton _ _
  funext items x
  rw [holder, hbeq]
  rfl

theorem holder_filter {p : NftKey → Bool} {items : List (NftKey × AccountId)} {x : NftKey} :
    holder (items.filter fun e => p e.1) x = if p x then holder items x else none := by
  rw [holder_eq_read]
  exact Entries.read_filter

theorem holder_without {items : List (NftKey × AccountId)} {x : NftKey} :
    holder (without x items) = Function.update (holder items) x none := by
  funext y
  rw [without, holder_filter (p := fun z => decide (z ≠ x))]
  by_cases hy : y = x <;> simp [hy]

theorem holder_cons {items : List (NftKey × AccountId)} {x : NftKey} {a : AccountId} :
    holder ((x, a) :: without x items) = Function.update (holder items) x (some a) := by
  rw [holder_eq_read]
  exact Entries.read_put

/-- How many items a collection has. -/
def itemCount (w : Storage) (c : CollectionId) : ℕ := (w.items.filter fun e => e.1.1 = c).length

/-- A collection without items has nobody who holds one. -/
theorem holder_of_itemCount {w : Storage} {c : CollectionId} {n : NftId}
    (h : itemCount w c = 0) : holder w.items (c, n) = none := by
  rw [holder, List.lookup_eq_none_iff]
  intro e he
  have hnil := List.filter_eq_nil_iff.1 (List.length_eq_zero_iff.1 h) e he
  simp only [decide_eq_true_eq] at hnil
  simpa using fun hx => hnil (congrArg Prod.fst hx.symm)

/-- An error of `pallet_uniques` or the currency. -/
def failed {α : Type} (pallet error : ℕ) : Except DispatchError α :=
  .error (.external pallet error)

/-- A call that checks one thing. -/
theorem ite_failed_ok {p : Prop} [Decidable p] {w w' : Storage} {n m : ℕ} :
    (if p then .ok w else failed n m) = .ok w' ↔ p ∧ w = w' := by
  split
  · next hp => simp only [Except.ok.injEq, hp, true_and]
  · next hp => simp only [failed, reduceCtorEq, hp, false_and]

def doMint (w : Storage) (x : NftKey) (a : AccountId) : Except DispatchError Storage :=
  if holder w.items x = none ∧ (w.collectionOwner x.1).isSome = true then
    .ok { w with items := (x, a) :: without x w.items }
  else failed 0 0

def doTransfer (locked : NftKey → Bool) (w : Storage) (x : NftKey) (a : AccountId) :
    Except DispatchError Storage :=
  if locked x = false ∧ (holder w.items x).isSome = true then
    .ok { w with items := (x, a) :: without x w.items }
  else failed 0 1

def doBurn (w : Storage) (x : NftKey) : Except DispatchError Storage :=
  if (holder w.items x).isSome = true then .ok { w with items := without x w.items }
  else failed 0 2

def doCreateCollection (w : Storage) (c : CollectionId) (owner _admin : AccountId) :
    Except DispatchError Storage :=
  if w.collectionOwner c = none then
    .ok { w with collectionOwner := Function.update w.collectionOwner c (some owner) }
  else failed 0 3

def getDestroyWitness (w : Storage) (c : CollectionId) : Option DestroyWitness :=
  if (w.collectionOwner c).isSome = true ∧ itemCount w c < UInt32.size then
    some { items := UInt32.ofNat (itemCount w c), itemMetadatas := 0, attributes := 0 }
  else none

def doDestroyCollection (w : Storage) (c : CollectionId) (_witness : DestroyWitness)
    (owner : AccountId) : Except DispatchError Storage :=
  if w.collectionOwner c = some owner then
    .ok { w with
      items := w.items.filter fun e => e.1.1 ≠ c
      collectionOwner := Function.update w.collectionOwner c none }
  else failed 0 4

/-- The new owner has accepted the collection before, and is done with that
where it was another's. -/
def transferOwnership (w : Storage) (origin : AccountId) (c : CollectionId)
    (owner : AccountId) : Except DispatchError Storage :=
  if w.acceptances owner = some c ∧ w.collectionOwner c = some origin then
    .ok { w with
      collectionOwner := Function.update w.collectionOwner c (some owner)
      acceptances :=
        if origin = owner then w.acceptances else Function.update w.acceptances owner none }
  else failed 0 5

instance : Uniques Storage where
  owner w := holder w.items
  collectionOwner := Storage.collectionOwner
  getDestroyWitness
  doMint
  doTransfer
  doBurn
  doCreateCollection
  doDestroyCollection
  transferOwnership
  owner_doMint h := by
    obtain ⟨-, rfl⟩ := ite_failed_ok.1 h
    exact holder_cons
  owner_doTransfer h := by
    obtain ⟨-, rfl⟩ := ite_failed_ok.1 h
    exact holder_cons
  unlocked_doTransfer h := (ite_failed_ok.1 h).1.1
  owner_doBurn h := by
    obtain ⟨-, rfl⟩ := ite_failed_ok.1 h
    exact holder_without
  owner_doCreateCollection h := by
    obtain ⟨-, rfl⟩ := ite_failed_ok.1 h
    rfl
  owner_doDestroyCollection {w w' c d a} h := by
    obtain ⟨-, rfl⟩ := ite_failed_ok.1 h
    funext x
    rw [holder_filter (p := fun z => decide (z.1 ≠ c))]
    by_cases hx : x.1 = c <;> simp [hx]
  owner_of_witness {w c d n} h hd := by
    unfold getDestroyWitness at h
    split at h
    · next hc =>
        simp only [Option.some.injEq] at h
        subst h
        refine holder_of_itemCount ?_
        have hn : (UInt32.ofNat (itemCount w c)).toNat = 0 := congrArg UInt32.toNat hd
        rwa [UInt32.toNat_ofNat', Nat.mod_eq_of_lt hc.2] at hn
    · simp at h
  owner_transferOwnership h := by
    obtain ⟨-, rfl⟩ := ite_failed_ok.1 h
    rfl

/-! ## The currency -/

/-- What has to stay on an account that is kept alive. -/
def keep : ExistenceRequirement → Balance
  | .keepAlive => 1
  | .allowDeath => 0

def reserve (w : Storage) (a : AccountId) (v : Balance) : Except DispatchError Storage :=
  if v ≤ w.free a then
    .ok { w with
      free := Function.update w.free a (w.free a - v)
      reserved := Function.update w.reserved a (w.reserved a + v) }
  else failed 1 0

def unreserve (w : Storage) (a : AccountId) (v : Balance) : Storage :=
  { w with
    free := Function.update w.free a (w.free a + min v (w.reserved a))
    reserved := Function.update w.reserved a (w.reserved a - v) }

/-- Nothing to pay, or nobody else to pay it to, is no transfer. -/
def transfer (w : Storage) (a b : AccountId) (v : Balance) (r : ExistenceRequirement) :
    Except DispatchError Storage :=
  if v = 0 ∨ a = b then .ok w
  else if v ≤ w.free a ∧ v + keep r ≤ w.free a + w.reserved a then
    .ok { w with
      free := Function.update (Function.update w.free a (w.free a - v)) b (w.free b + v) }
  else failed 1 1

/-- A transfer moves balances and nothing else. -/
theorem transfer_eq {w w' : Storage} {a b : AccountId} {v : Balance} {r : ExistenceRequirement}
    (h : transfer w a b v r = .ok w') : w' = { w with free := w'.free } := by
  unfold transfer at h
  split at h
  · exact Except.ok.inj h ▸ rfl
  · obtain ⟨-, rfl⟩ := ite_failed_ok.1 h
    rfl

instance : Currency Storage where
  free := Storage.free
  reserved := Storage.reserved
  reserve
  unreserve
  transfer
  free_transfer {w w' a b v r} h hab := by
    unfold transfer at h
    split at h
    · next hzero =>
        obtain rfl := hzero.resolve_right hab
        obtain rfl := Except.ok.inj h
        exact ⟨rfl, rfl, fun _ _ _ => rfl⟩
    · obtain ⟨hv, rfl⟩ := ite_failed_ok.1 h
      refine ⟨?_, by simp, fun c hca hcb => by simp [hca, hcb]⟩
      simpa [hab] using Nat.sub_add_cancel hv.1
  reserved_transfer h := by rw [transfer_eq h]
  free_reserve {w w' a v} h := by
    obtain ⟨hv, rfl⟩ := ite_failed_ok.1 h
    refine ⟨?_, fun c hc => by simp [hc]⟩
    simpa using Nat.sub_add_cancel hv
  reserved_reserve h := by
    obtain ⟨-, rfl⟩ := ite_failed_ok.1 h
    rfl
  free_unreserve := rfl
  reserved_unreserve := rfl

/-! ## The configuration -/

/-- Storage yields keys in the order of their numbers. -/
def keyOrder (x y : NftKey) : Prop := x.1 < y.1 ∨ x.1 = y.1 ∧ x.2 ≤ y.2

instance : DecidableRel keyOrder := fun x y =>
  inferInstanceAs (Decidable (x.1 < y.1 ∨ x.1 = y.1 ∧ x.2 ≤ y.2))

theorem keyOrder_antisymm {x y : NftKey} (h : keyOrder x y) (h' : keyOrder y x) : x = y := by
  obtain ⟨c, n⟩ := x
  obtain ⟨c', n'⟩ := y
  simp only [keyOrder, UInt32.lt_iff_toNat_lt, UInt32.le_iff_toNat_le, ← UInt32.toNat_inj,
    Prod.mk.injEq] at h h' ⊢
  omega

theorem keyOrder_trans {x y z : NftKey} (h : keyOrder x y) (h' : keyOrder y z) :
    keyOrder x z := by
  simp only [keyOrder, UInt32.lt_iff_toNat_lt, UInt32.le_iff_toNat_le, ← UInt32.toNat_inj]
    at h h' ⊢
  omega

theorem keyOrder_total (x y : NftKey) : keyOrder x y ∨ keyOrder y x := by
  simp only [keyOrder, UInt32.lt_iff_toNat_lt, UInt32.le_iff_toNat_le, ← UInt32.toNat_inj]
  omega

instance : IsTrans NftKey keyOrder := ⟨fun _ _ _ => keyOrder_trans⟩
instance : Std.Total keyOrder := ⟨keyOrder_total⟩

/-- The keys of a set, in order. -/
def iterKeys (keys : Finset NftKey) : List NftKey :=
  Quot.liftOn keys.val (List.insertionSort keyOrder) fun l l' h =>
    ((List.perm_insertionSort keyOrder l).trans
      (h.trans (List.perm_insertionSort keyOrder l').symm)).eq_of_pairwise
        (fun _ _ _ _ => keyOrder_antisymm) (List.pairwise_insertionSort keyOrder l)
          (List.pairwise_insertionSort keyOrder l')

/-- In that order the keys are those of the set. -/
theorem mem_iterKeys {keys : Finset NftKey} {x : NftKey} : x ∈ iterKeys keys ↔ x ∈ keys := by
  obtain ⟨⟨l⟩, hl⟩ := keys
  exact (List.perm_insertionSort keyOrder l).mem_iff

instance : Config Storage where
  maxRecursions := 10
  minimumOfferAmount := 50
  maxPropertiesPerTheme := 5
  iterKeys
  Source := AccountId
  lookup := .ok
  Elsewhere w w' := w'.items = w.items ∧ w'.collectionOwner = w.collectionOwner ∧
    w'.reserved = w.reserved
  mem_iterKeys
  owner_transfer h := congrArg (fun w => holder w.items) (transfer_eq h)
  owner_reserve h := by
    obtain ⟨-, rfl⟩ := ite_failed_ok.1 h
    rfl
  owner_unreserve := rfl
  free_doTransfer h := by
    obtain ⟨-, rfl⟩ := ite_failed_ok.1 h
    rfl
  owner_elsewhere h := congrArg holder h.1

/-- Where nothing is held, what is reserved stays. -/
theorem heldOnly_of_reserved {w w' : Storage} (h : w'.reserved = w.reserved) :
    HeldOnly (fun _ _ => 0) Currency.reserved w w' := fun _ a =>
  congrArg (· + 0) (congrFun h a)

/-- A transfer leaves what is reserved alone. -/
theorem reserved_doTransfer {l : NftKey → Bool} {w w' : Storage} {x : NftKey} {a : AccountId}
    (h : doTransfer l w x a = .ok w') : w'.reserved = w.reserved := by
  obtain ⟨-, rfl⟩ := ite_failed_ok.1 h
  rfl

instance : Deposits Storage where
  held _ _ := 0
  held_genesis _ _ a := Nat.zero_le _
  held_reserve _ := rfl
  held_unreserve := rfl
  held_transfer _ := rfl
  heldOnly_doMint h := by
    obtain ⟨-, rfl⟩ := ite_failed_ok.1 h
    exact heldOnly_of_reserved rfl
  held_doTransfer _ := rfl
  reserved_doTransfer := reserved_doTransfer
  heldOnly_doBurn h := by
    obtain ⟨-, rfl⟩ := ite_failed_ok.1 h
    exact heldOnly_of_reserved rfl
  heldOnly_doCreateCollection h := by
    obtain ⟨-, rfl⟩ := ite_failed_ok.1 h
    exact heldOnly_of_reserved rfl
  heldOnly_doDestroyCollection h := by
    obtain ⟨-, rfl⟩ := ite_failed_ok.1 h
    exact heldOnly_of_reserved rfl
  heldOnly_transferOwnership h := by
    obtain ⟨-, rfl⟩ := ite_failed_ok.1 h
    exact heldOnly_of_reserved rfl
  heldOnly_elsewhere h := heldOnly_of_reserved h.2.2

instance : CollectionOwners Storage where
  collectionOwner_doMint h := by
    obtain ⟨-, rfl⟩ := ite_failed_ok.1 h
    rfl
  collectionOwner_doTransfer h := by
    obtain ⟨-, rfl⟩ := ite_failed_ok.1 h
    rfl
  collectionOwner_doBurn h := by
    obtain ⟨-, rfl⟩ := ite_failed_ok.1 h
    rfl
  collectionOwner_doCreateCollection h := by
    obtain ⟨-, rfl⟩ := ite_failed_ok.1 h
    rfl
  collectionOwner_doDestroyCollection h := by
    obtain ⟨-, rfl⟩ := ite_failed_ok.1 h
    rfl
  collectionOwner_transferOwnership h := by
    obtain ⟨-, rfl⟩ := ite_failed_ok.1 h
    rfl
  collectionOwner_reserve h := by
    obtain ⟨-, rfl⟩ := ite_failed_ok.1 h
    rfl
  collectionOwner_unreserve := rfl
  collectionOwner_transfer h := (congrArg Storage.collectionOwner (transfer_eq h) :)
  collectionOwner_elsewhere h := h.2.1

instance : Items Storage where
  doTransfer_ok hl hx := ⟨_, if_pos ⟨hl, hx⟩⟩
  doBurn_ok hx := ⟨_, if_pos hx⟩

instance : Payments Storage where
  existentialDeposit := 1
  transfer_iff {w a b v} hab := by
    change (∃ w', transfer w a b v .keepAlive = .ok w') ↔
      v = 0 ∨ v ≤ w.free a ∧ v + 1 ≤ w.free a + w.reserved a ∧ 1 ≤ w.free b + w.reserved b + v
    unfold transfer
    by_cases hv : v = 0
    · simp [hv]
    · have hpayee : 1 ≤ w.free b + w.reserved b + v :=
        le_trans (Nat.pos_of_ne_zero hv) (Nat.le_add_left _ _)
      rw [if_neg (not_or.2 ⟨hv, hab⟩)]
      constructor
      · rintro ⟨w', h⟩
        obtain ⟨⟨hfree, htotal⟩, -⟩ := ite_failed_ok.1 h
        exact .inr ⟨hfree, htotal, hpayee⟩
      · rintro (hzero | ⟨hfree, htotal, -⟩)
        · exact absurd hzero hv
        · exact ⟨_, if_pos ⟨hfree, htotal⟩⟩

end Mock

end Rmrk
