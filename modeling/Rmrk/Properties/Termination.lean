import Rmrk.Common.Spares
import Rmrk.Helpers.Frames
import Rmrk.Helpers.Moves
import Rmrk.Properties.Forest
/-!
# Extrinsics that do not return

Two recursions climb the owners of an NFT and nothing bounds them, so an
extrinsic that looks an NFT up may never come back. In a forest none does:
all that is looked up is looked up in the forest the extrinsic found, but
for the resources of a mint, which are added once the new NFT has its
owner. In a state that is no forest some rejection does not return.
-/

namespace Rmrk

open Relation Pointer Effect

variable {W : Type} [Config W] {s s' t : State W} {o a : AccountId} {x y p : NftKey}
variable {c : CollectionId} {call : Call W} {h : List (State W × Act W)}

/-! ## Rules -/

namespace Terminates

variable {α β : Type} {m : M W α} {f : α → M W β} {g : Unit → M W β} {d : DispatchError}

omit [Config W] in
/-- A check returns, and what comes next has its condition. -/
theorem ensure_bind {P : Prop} [Decidable P] (h : P → Terminates (g ()) s) :
    Terminates (Effect.ensure P (.err d) >>= g) s :=
  Spares.ensure_bind nofun h

omit [Config W] in
/-- So does a read that may find nothing. -/
theorem okOr_bind {v : Option α} (h : ∀ a, v = some a → Terminates (f a) s) :
    Terminates (okOr v (.err d) >>= f) s :=
  Spares.okOr_bind nofun h

omit [Config W] in
/-- What another pallet does returns. -/
theorem external {k : W → Except DispatchError W} : Terminates (external k : M W Unit) s := by
  intro s' h
  unfold Rmrk.external at h
  split at h <;> cases h

omit [Config W] in
/-- What comes after a call into another pallet starts from the storage that
call has left. -/
theorem external_bind {k : W → Except DispatchError W}
    (h : ∀ w, k s.ext = .ok w → Terminates (g ()) { s with ext := w }) :
    Terminates (Rmrk.external k >>= g) s := by
  refine Spares.bind external fun u t ht => ?_
  obtain ⟨w, hw, rfl⟩ := external_ok.1 ht
  exact h w hw

/-- **In a forest a lookup returns.** -/
theorem lookup (hs : Acyclic s.parent) : Terminates (lookupRootOwner x) s :=
  (forest_iff.2 hs).lookup x

/-- What comes after a lookup has the root owner it found. -/
theorem lookup_bind {f : AccountId × NftKey → M W β} (hs : Acyclic s.parent)
    (h : ∀ a r, RootOwner s x a → Terminates (f (a, r)) s) :
    Terminates (lookupRootOwner x >>= f) s := by
  refine Spares.bind (lookup hs) fun ⟨a, r⟩ t ht => ?_
  obtain ⟨hr, rfl⟩ := lookupRootOwner_ok.1 ht
  exact h a r ⟨r, hr⟩

end Terminates

open Terminates

namespace Core

/-- **The recursive burn returns in every state**: each call has one unit of
the budget less, and the children are walked through a list read before. -/
theorem nftBurn_terminates {k : ℕ} : Terminates (nftBurn k x : M W Unit) s := by
  induction k generalizing x s with
  | zero => exact Spares.throw nofun
  | succ k ih =>
      have hunlink : Terminates (unlinkRecorded x : M W Unit) s := by
        refine Spares.get_bind ?_
        split
        · split
          · exact Spares.update
          · exact Spares.pure
        · exact Spares.pure
      refine Spares.bind hunlink fun _ t _ => Spares.update_bind (Spares.get_bind ?_)
      refine Spares.bind (Spares.each (P := fun _ => True) (fun y t _ => ⟨?_, fun _ _ _ => trivial⟩)
        trivial) fun _ t _ => Spares.get_bind (okOr_bind fun _ _ => Spares.update)
      exact Spares.get_bind (Spares.ite (fun _ => Spares.bind Spares.update fun _ _ _ => ih)
        fun _ => Spares.pure)

/-- An NFT as a new owner is climbed from twice, for the descent check and for
its root owner. -/
theorem checkTarget_terminates (hs : Acyclic s.parent) :
    Terminates (checkTarget x p : M W AccountId) s := by
  refine Spares.get_bind (ensure_bind fun _ => ensure_bind fun _ => ?_)
  refine Spares.bind ((forest_iff.2 hs).descendent p x) fun d t ht => ?_
  obtain ⟨-, rfl⟩ := isXDescendentOfY_ok.1 ht
  exact ensure_bind fun _ => lookup_bind hs fun _ _ _ => Spares.pure

/-- **`send` returns in a forest**: it looks up before it writes. -/
theorem send_terminates (hs : Acyclic s.parent) {newOwner : AccountIdOrCollectionNftTuple} :
    Terminates (send o x newOwner : M W Unit) s := by
  have hrelink : ∀ (old new : AccountId) (t : State W),
      Terminates (relinkChild x old new : M W Unit) t := by
    intro old new t
    unfold relinkChild
    cases decodeNftAccountId old <;> cases decodeNftAccountId new
    · exact Spares.pure
    · exact Spares.update
    · exact Spares.update_bind Spares.pure
    · exact Spares.update_bind Spares.update
  have htarget : ∀ r, Terminates (sendTarget x r newOwner : M W (AccountId × Bool)) s := by
    intro r
    cases newOwner with
    | accountId id => exact Spares.pure
    | collectionAndNftTuple cid nid =>
        exact Spares.bind (checkTarget_terminates hs) fun _ _ _ => Spares.pure
  refine Spares.transactional (Spares.bind ?_ fun _ t _ => Spares.get_bind Terminates.external)
  refine Spares.get_bind (okOr_bind fun _ _ => lookup_bind hs fun _ _ _ => ensure_bind fun _ =>
    okOr_bind fun _ _ => ensure_bind fun _ => ensure_bind fun _ => ?_)
  refine Spares.bind (htarget _) fun _ t _ => Spares.bind ?_ fun _ t _ =>
    Spares.bind (hrelink _ _ _) fun _ _ _ => Spares.pure
  exact Spares.ite (fun _ => Spares.update) fun _ => Spares.update

/-- So does `accept_nft`. -/
theorem acceptNft_terminates (hs : Acyclic s.parent) {newOwner : AccountIdOrCollectionNftTuple} :
    Terminates (acceptNft o x newOwner : M W Unit) s := by
  have htarget : ∀ r, Terminates (acceptTarget x r newOwner : M W AccountId) s := by
    intro r
    cases newOwner with
    | accountId id => exact Spares.pure
    | collectionAndNftTuple cid nid =>
        exact Spares.bind (checkTarget_terminates hs) fun _ _ _ => ensure_bind fun _ => Spares.pure
  refine Spares.transactional (Spares.bind ?_ fun _ t _ => Spares.get_bind Terminates.external)
  refine lookup_bind hs fun _ _ _ => ensure_bind fun _ => Spares.get_bind (okOr_bind fun _ _ => ?_)
  exact Spares.bind (htarget _) fun _ _ _ => Spares.update_bind Spares.pure

/-- And `reject_nft`, the burn of which needs no forest. -/
theorem rejectNft_terminates (hs : Acyclic s.parent) :
    Terminates (rejectNft o x : M W Unit) s := by
  refine Spares.transactional (lookup_bind hs fun _ _ _ => Spares.get_bind (okOr_bind fun _ _ =>
    ensure_bind fun _ => ensure_bind fun _ => ?_))
  split
  · exact Spares.bind Spares.update fun _ _ _ => nftBurn_terminates
  · exact nftBurn_terminates

/-! ## Adding resources -/

/-- A resource is counted before the root owner is looked up, in the forest
there was: a counter owns nothing. -/
theorem resourceAdd_terminates (hs : Acyclic s.parent) {resource : ResourceTypes} {onMint : Bool} :
    Terminates (resourceAdd o x resource onMint : M W ResourceId) s := by
  have hindex : ∀ (r : ResourceId) (t : State W),
      Terminates (indexResource x r resource : M W Unit) t := by
    intro r t
    unfold indexResource
    split
    · exact Spares.pure
    · refine Spares.update_bind ?_
      split
      · exact Spares.update
      · exact Spares.pure
    · exact Spares.update
  have hnext : Terminates (getNextResourceId x : M W ResourceId) s :=
    Spares.get_bind (okOr_bind fun _ _ => Spares.update_bind Spares.pure)
  refine Spares.get_bind (okOr_bind fun _ _ => Spares.bind hnext fun _ t ht => ?_)
  have howner : t.owner = s.owner :=
    within_getNextResourceId (R := Same State.owner) (fun _ _ => rfl) s _ t ht
  refine ensure_bind fun _ => lookup_bind (State.parent_congr howner ▸ hs) fun _ _ _ =>
    ensure_bind fun _ => Spares.bind (hindex _ _) fun _ _ _ => Spares.update_bind Spares.pure

/-- Adding a resource moves nothing. -/
theorem addResources_terminates (hs : Acyclic s.parent) {l : Option (List ResourceTypes)} :
    Terminates (addResources o x l : M W Unit) s := by
  refine Spares.each (P := fun t => Acyclic t.parent) (fun resource t ht => ⟨?_, ?_⟩) hs
  · exact Spares.bind (resourceAdd_terminates ht) fun _ _ _ => Spares.pure
  · intro u t' hadd
    simp only [bind_ok, pure_ok] at hadd
    obtain ⟨_, t₁, hadd, -, rfl⟩ := hadd
    have howner := (noted_of_added (resourceAdd_ok hadd).2).owner
    exact State.parent_congr howner ▸ ht

/-! ## Minting -/

/-- Reading the issuer of a collection takes no walk. -/
theorem checkCollectionOwner_terminates : Terminates (checkCollectionOwner o c : M W Unit) s :=
  Spares.get_bind (okOr_bind fun _ _ => Spares.ensure nofun)

omit [Config W] in
/-- Nor does taking the next number of it. -/
theorem claimNftId_terminates : Terminates (claimNftId c : M W (NftId × CollectionInfo)) s := by
  have hid : Terminates (getNextNftId c : M W NftId) s :=
    Spares.get_bind (okOr_bind fun _ _ => Spares.update_bind Spares.pure)
  refine Spares.bind hid fun _ t _ => Spares.get_bind (okOr_bind fun col _ => ?_)
  cases col.max with
  | none => exact Spares.pure
  | some m => exact ensure_bind fun _ => Spares.pure

omit [Config W] in
/-- Nor does writing the new record down. -/
theorem recordNft_terminates {col : CollectionInfo} {nft : NftInfo} :
    Terminates (recordNft x col nft : M W Unit) s :=
  Spares.update_bind (okOr_bind fun _ _ => Spares.get_bind (okOr_bind fun _ _ => Spares.update))

omit [Config W] in
/-- The two writes of a mint are no writes of the other pallets. -/
theorem minted_ext {n : NftId} {col : CollectionInfo} {nft : NftInfo} {u : Unit}
    (hid : claimNftId c s = .ok (n, col) t) (hrec : recordNft (c, n) col nft t = .ok u s') :
    s.nextNftId c = n ∧ s'.ext = s.ext := by
  obtain ⟨hnext, -, rfl⟩ := claimNftId_ok hid
  obtain ⟨_, rfl⟩ := recordNft_ok hrec
  exact ⟨hnext, rfl⟩

/-- **The resources of a mint** are looked up with the new NFT in place. -/
theorem mint_terminates {n : NftId} {l : Option (List ResourceTypes)} (hs : Acyclic s.parent)
    (hnot : NotBelow s a (c, n)) (hext : t.ext = s.ext) :
    Terminates (Rmrk.external (fun w => Uniques.doMint w (c, n) a) >>= fun _ =>
      (addResources o (c, n) l : M W Unit)) t := by
  refine external_bind fun w hw => addResources_terminates ((acyclic_of_owner hs ?_).2 hnot)
  rw [hext] at hw
  exact Uniques.owner_doMint hw

section Mint

variable {owner : Option AccountId} {rr : Option AccountId} {r : Option Permill}
variable {md : BoundedString} {tr : Bool} {res : Option (List ResourceTypes)}

/-- **A mint returns** unless its owner is the virtual account of the NFT it
is about to make, or of one below: then the lookup for its resources would
not. -/
theorem mintNft_terminates (hs : Acyclic s.parent)
    (hnot : NotBelow s (owner.getD o) (c, s.nextNftId c)) :
    Terminates (mintNft o owner c rr r md tr res : M W Unit) s := by
  refine Spares.transactional (Spares.bind checkCollectionOwner_terminates fun _ t ht => ?_)
  obtain rfl : s = t := within_checkCollectionOwner (R := Eq) s _ t ht
  simp only [nftMint, bind_assoc]
  refine Spares.bind claimNftId_terminates fun claimed t₁ hid => ?_
  obtain ⟨n, col⟩ := claimed
  refine Spares.bind recordNft_terminates fun _ t₂ hrec => ?_
  obtain ⟨rfl, hext⟩ := minted_ext hid hrec
  exact mint_terminates hs hnot hext

/-- The target is there, and nothing that is there is below a new NFT. -/
theorem mintNftDirectlyToNft_terminates (hs : Acyclic s.parent) (hsound : Sound s) :
    Terminates (mintNftDirectlyToNft o p c rr r md tr res : M W Unit) s := by
  refine Spares.transactional (Spares.bind checkCollectionOwner_terminates fun _ t ht => ?_)
  obtain rfl : s = t := within_checkCollectionOwner (R := Eq) s _ t ht
  simp only [nftMintDirectlyToNft, bind_assoc]
  refine Spares.bind claimNftId_terminates fun claimed t₁ hid => ?_
  obtain ⟨n, col⟩ := claimed
  have howner : t₁.owner = s.owner := by rw [(claimNftId_ok hid).2.2]; rfl
  refine lookup_bind (State.parent_congr howner ▸ hs) fun b _ hb => ?_
  refine Spares.bind recordNft_terminates fun _ t₂ hrec => ?_
  obtain ⟨rfl, hext⟩ := minted_ext hid hrec
  have habsent : Absent (c, s.nextNftId c) s := hsound.absent _ (UInt32.le_refl _)
  exact mint_terminates hs (((rootOwner_congr howner).1 hb).notBelow habsent) hext

end Mint

/-! ## The other calls of `rmrk-core` -/

/-- One lookup, and then the burn. -/
theorem burnNft_terminates (hs : Acyclic s.parent) {k : UInt32} :
    Terminates (burnNft o x k : M W Unit) s :=
  Spares.transactional (lookup_bind hs fun _ _ _ => ensure_bind fun _ =>
    Spares.bind nftBurn_terminates fun _ _ _ => Terminates.external)

/-- The calls on collections look up nothing. -/
theorem createCollection_terminates {md sy : BoundedString} {max : Option UInt32} :
    Terminates (createCollection o md max sy : M W Unit) s :=
  Spares.transactional (Spares.bind (Spares.get_bind (ensure_bind fun _ => Spares.update_bind
    (Spares.update_bind Spares.pure))) fun _ _ _ => Terminates.external)

/-- The witness is asked of `pallet_uniques`. -/
theorem destroyCollection_terminates : Terminates (destroyCollection o c : M W Unit) s :=
  Spares.transactional (Spares.bind (Spares.get_bind (okOr_bind fun _ _ => ensure_bind fun _ =>
    Spares.update)) fun _ _ _ => Spares.get_bind (okOr_bind fun _ _ => ensure_bind fun _ =>
      Terminates.external))

/-- What a lookup of an account fails with is an error. -/
theorem lookup_ne_diverge {source : Config.Source W} :
    (Config.lookup source).mapError Abort.err ≠ .error .diverge := by
  cases Config.lookup source <;> nofun

/-- The one lookup here is of an account's address, which fails or succeeds.
-/
theorem changeCollectionIssuer_terminates {source : Config.Source W} :
    Terminates (changeCollectionIssuer o c source : M W Unit) s :=
  Spares.transactional (Spares.get_bind (okOr_bind fun _ _ => ensure_bind fun _ =>
    Spares.ofResult_bind lookup_ne_diverge fun _ => ensure_bind fun _ =>
      Spares.bind (Spares.get_bind (ensure_bind fun _ => Spares.update_bind Spares.pure))
        fun _ _ _ => Terminates.external))

omit [Config W] in
/-- A lock reads one record and writes it. -/
theorem lockCollection_terminates : Terminates (lockCollection o c : M W Unit) s :=
  Spares.transactional (Spares.bind (Spares.get_bind (okOr_bind fun _ _ => ensure_bind fun _ =>
    Spares.update_bind Spares.pure)) fun _ _ _ => Spares.pure)

/-- A property of a collection takes no lookup, one of an NFT takes one. -/
theorem setProperty_terminates (hs : Acyclic s.parent) {n : Option NftId} {k v : BoundedString} :
    Terminates (setProperty o c n k v : M W Unit) s := by
  refine Spares.transactional (Spares.get_bind (okOr_bind fun _ _ => ensure_bind fun _ => ?_))
  cases n with
  | none => exact Spares.bind Spares.pure fun _ _ _ => Spares.update
  | some n =>
      exact ensure_bind fun _ => lookup_bind hs fun _ _ _ => ensure_bind fun _ => Spares.update

/-- The three extrinsics that add a resource are one call. -/
theorem addResource_terminates (hs : Acyclic s.parent) {resource : ResourceTypes} :
    Terminates (addResource o x resource : M W Unit) s :=
  Spares.transactional (Spares.bind (resourceAdd_terminates hs) fun _ _ _ => Spares.pure)

/-- The remaining calls on resources look up the root owner once, and write
after it. -/
theorem acceptResource_terminates (hs : Acyclic s.parent) {r : ResourceId} :
    Terminates (acceptResource o x r : M W Unit) s :=
  Spares.transactional (Spares.get_bind (okOr_bind fun _ _ => lookup_bind hs fun _ _ _ =>
    ensure_bind fun _ => ensure_bind fun _ => Spares.update))

/-- Here the lookup decides which of the two writes it is. -/
theorem removeResource_terminates (hs : Acyclic s.parent) {r : ResourceId} :
    Terminates (removeResource o x r : M W Unit) s :=
  Spares.transactional (Spares.get_bind (okOr_bind fun _ _ => lookup_bind hs fun _ _ _ =>
    ensure_bind fun _ => ensure_bind fun _ =>
      Spares.ite (fun _ => Spares.update) fun _ => Spares.update))

/-- Here it comes before the resource is read. -/
theorem acceptResourceRemoval_terminates (hs : Acyclic s.parent) {r : ResourceId} :
    Terminates (acceptResourceRemoval o x r : M W Unit) s :=
  Spares.transactional (Spares.get_bind (lookup_bind hs fun _ _ _ => ensure_bind fun _ =>
    okOr_bind fun _ _ => ensure_bind fun _ => Spares.update))

/-- The loop runs through the list the call has been given. -/
theorem setPriority_terminates (hs : Acyclic s.parent) {l : List ResourceId} :
    Terminates (setPriority o x l : M W Unit) s := by
  have hinsert : ∀ (i : UInt32) (t : State W),
      Terminates (insertPriorities x i l : M W Unit) t := by
    induction l with
    | nil => exact fun _ _ => Spares.pure
    | cons r l ih => exact fun _ _ => Spares.update_bind (ih _ _)
  exact Spares.transactional (lookup_bind hs fun _ _ _ => ensure_bind fun _ => Spares.get_bind
    (ensure_bind fun _ => Spares.update_bind (hinsert _ _)))

end Core

/-! ## `rmrk-equip` -/

namespace Equip

omit [Config W] in
/-- One write a part. -/
theorem createBase_terminates {ty sy : BoundedString} {parts : List PartType} :
    Terminates (createBase o ty sy parts : M W Unit) s := by
  refine Spares.bind (Spares.bind (Spares.get_bind (okOr_bind fun _ _ =>
    Spares.update_bind Spares.pure)) fun _ _ _ => Spares.bind (Spares.each (P := fun _ => True)
      (fun _ _ _ => ⟨Spares.update, fun _ _ _ => trivial⟩) trivial) fun _ _ _ =>
        Spares.update_bind Spares.pure) fun _ _ _ => Spares.pure

/-- As for a collection. -/
theorem changeBaseIssuer_terminates {b : BaseId} {source : Config.Source W} :
    Terminates (changeBaseIssuer o b source : M W Unit) s :=
  Spares.get_bind (okOr_bind fun _ _ => ensure_bind fun _ =>
    Spares.ofResult_bind Core.lookup_ne_diverge fun _ => ensure_bind fun _ =>
      Spares.bind (Spares.get_bind (ensure_bind fun _ => Spares.update_bind Spares.pure))
        fun _ _ _ => Spares.pure)

omit [Config W] in
/-- Emptying a slot is two writes. -/
theorem unequip_terminates {b : BaseId} {sl : SlotId} :
    Terminates (unequip x p b sl : M W Bool) s :=
  Spares.update_bind (Spares.update_bind Spares.pure)

omit [Config W] in
/-- **The checks of `do_equip` are reads**, down to the list of the slot. -/
theorem fillSlot_terminates {issuer itemOwner equipperOwner : AccountId} {r : ResourceId}
    {b : BaseId} {sl : SlotId} :
    Terminates (fillSlot issuer x p r b sl itemOwner equipperOwner : M W Bool) s := by
  refine Spares.get_bind (ensure_bind fun _ => okOr_bind fun _ _ => ensure_bind fun _ =>
    ensure_bind fun _ => ensure_bind fun _ => ensure_bind fun _ => ensure_bind fun _ =>
      ensure_bind fun _ => okOr_bind fun part _ => ?_)
  cases part with
  | fixedPart => exact Spares.throw nofun
  | slotPart =>
      exact ensure_bind fun _ => Spares.update_bind (Spares.update_bind Spares.pure)

/-- Both root owners are looked up, the item's and the equipper's, unless
the slot is filled and the item is not there. -/
theorem equip_terminates (hs : Acyclic s.parent) {r : ResourceId} {b : BaseId} {sl : SlotId} :
    Terminates (equip o x p r b sl : M W Unit) s := by
  refine Spares.bind ?_ fun _ _ _ => Spares.pure
  refine Spares.get_bind (ensure_bind fun _ => ensure_bind fun _ =>
    Spares.ite (fun _ => unequip_terminates) fun _ => ?_)
  exact lookup_bind hs fun _ _ _ => lookup_bind hs fun _ _ _ =>
    Spares.ite (fun _ => unequip_terminates) fun _ => fillSlot_terminates

omit [Config W] in
/-- A fixed part is an error, a slot part one write. -/
theorem equippable_terminates {b : BaseId} {sl : SlotId} {l : EquippableList} :
    Terminates (equippable o b sl l : M W Unit) s := by
  refine Spares.get_bind (okOr_bind fun _ _ => ensure_bind fun _ => okOr_bind fun part _ => ?_)
  cases part with
  | fixedPart => exact Spares.throw nofun
  | slotPart => exact Spares.update

/-- One write a property. -/
theorem themeAdd_terminates {b : BaseId} {theme : Theme} :
    Terminates (themeAdd o b theme : M W Unit) s :=
  ensure_bind fun _ => Spares.get_bind (okOr_bind fun _ _ => ensure_bind fun _ => ensure_bind
    fun _ => Spares.each (P := fun _ => True) (fun _ _ _ => ⟨Spares.update, fun _ _ _ => trivial⟩)
      trivial)

end Equip

/-! ## `rmrk-market` -/

namespace Market

omit [Config W] in
/-- The price is in the listing, or in the amount the offer names. -/
theorem listPrice_terminates {buyer owner : AccountId} {isOffer : Bool} :
    Terminates (listPrice buyer owner x isOffer : M W Balance) s := by
  refine Spares.get_bind (Spares.ite (fun _ => okOr_bind fun _ _ => Spares.pure) fun _ => ?_)
  exact okOr_bind fun _ _ => Spares.update_bind (ensure_bind fun _ => ensure_bind fun _ =>
    Spares.pure)

/-- Who owns what is all there is to a forest. -/
theorem acyclic_of_owners (h : Uniques.owner t.ext = s.owner) (hs : Acyclic s.parent) :
    Acyclic t.parent := by
  have hparent : t.parent = s.parent := State.parent_congr h
  rwa [hparent]

/-- A payment moves no NFT. -/
theorem doBuy_terminates (hs : Acyclic s.parent) {amount : Option Balance} {isOffer : Bool} :
    Terminates (doBuy o x amount isOffer : M W Unit) s := by
  refine Spares.get_bind (okOr_bind fun owner _ => ensure_bind fun _ => Spares.bind
    listPrice_terminates fun price t ht => ?_)
  have hext : t.ext = s.ext := within_listPrice (R := Same State.ext) (fun _ _ => rfl) s _ t ht
  have hpay : Terminates (Core.setLock x false >>= fun _ => Rmrk.external
      (fun w => Currency.transfer w o owner price .keepAlive) >>= fun _ =>
        Core.send owner x (.accountId o) : M W Unit) t := by
    refine Spares.update_bind (external_bind fun w hw => Core.send_terminates ?_)
    have howner : Uniques.owner w = s.owner := by rw [Config.owner_transfer hw, hext]; rfl
    exact acyclic_of_owners howner hs
  cases amount with
  | none => exact hpay
  | some v => exact ensure_bind fun _ => hpay

section

variable {v : Balance} {e : Option BlockNumber}

/-- The other calls of the market read the owner of the NFT itself, not of its
root, and return in every state. -/
theorem list_terminates : Terminates (list o x v e : M W Unit) s := by
  refine Spares.transactional (Spares.get_bind (okOr_bind fun _ _ => ensure_bind fun _ =>
    ensure_bind fun _ => okOr_bind fun _ _ => ensure_bind fun _ => Spares.update_bind ?_))
  exact Spares.ite (fun _ => Spares.update_bind Spares.update) fun _ => Spares.update

/-- Nothing is looked up to take a listing out. -/
theorem unlist_terminates : Terminates (unlist o x : M W Unit) s :=
  Spares.transactional (Spares.get_bind (ensure_bind fun _ => okOr_bind fun _ _ =>
    ensure_bind fun _ => Spares.update_bind Spares.update))

/-- Nor to offer. -/
theorem makeOffer_terminates : Terminates (makeOffer o x v e : M W Unit) s :=
  Spares.transactional (ensure_bind fun _ => Spares.get_bind (okOr_bind fun _ _ =>
    ensure_bind fun _ => ensure_bind fun _ => external_bind fun _ _ => Spares.update))

/-- Nor to take an offer back. -/
theorem withdrawOffer_terminates : Terminates (withdrawOffer o x : M W Unit) s :=
  Spares.transactional (Spares.get_bind (okOr_bind fun _ _ => okOr_bind fun _ _ =>
    ensure_bind fun _ => external_bind fun _ _ => Spares.update))

/-- An acceptance frees the reserve, which owns nothing, and buys. -/
theorem acceptOffer_terminates (hs : Acyclic s.parent) {offerer : AccountId} :
    Terminates (acceptOffer o x offerer : M W Unit) s := by
  refine Spares.transactional (Spares.get_bind (okOr_bind fun _ _ => ensure_bind fun _ =>
    okOr_bind fun offer _ => ensure_bind fun _ => external_bind fun w hw => ?_))
  have howner : Uniques.owner w = s.owner := by
    rw [← Except.ok.inj hw, Config.owner_unreserve]; rfl
  exact Spares.bind (doBuy_terminates (acyclic_of_owners howner hs)) fun _ _ _ => Spares.update

end

end Market

/-! ## Every extrinsic -/

/-- **In a forest every extrinsic returns** that does not name as the new
owner of an NFT one below it. -/
theorem dispatch_terminates (hsound : Sound s) (hs : Acyclic s.parent)
    (hnames : NamesNoDescendent s (.signed o call)) : Terminates (dispatch o call) s := by
  cases call with
  | mintNft => exact Core.mintNft_terminates hs hnames
  | mintNftDirectlyToNft => exact Core.mintNftDirectlyToNft_terminates hs hsound
  | createCollection => exact Core.createCollection_terminates
  | burnNft => exact Core.burnNft_terminates hs
  | destroyCollection => exact Core.destroyCollection_terminates
  | send => exact Core.send_terminates hs
  | acceptNft => exact Core.acceptNft_terminates hs
  | rejectNft => exact Core.rejectNft_terminates hs
  | changeCollectionIssuer => exact Core.changeCollectionIssuer_terminates
  | setProperty => exact Core.setProperty_terminates hs
  | lockCollection => exact Core.lockCollection_terminates
  | addBasicResource => exact Core.addResource_terminates hs
  | addComposableResource => exact Core.addResource_terminates hs
  | addSlotResource => exact Core.addResource_terminates hs
  | acceptResource => exact Core.acceptResource_terminates hs
  | removeResource => exact Core.removeResource_terminates hs
  | acceptResourceRemoval => exact Core.acceptResourceRemoval_terminates hs
  | setPriority => exact Core.setPriority_terminates hs
  | changeBaseIssuer => exact Equip.changeBaseIssuer_terminates
  | equip => exact Equip.equip_terminates hs
  | equippable => exact Equip.equippable_terminates
  | themeAdd => exact Equip.themeAdd_terminates
  | createBase => exact Equip.createBase_terminates
  | buy => exact Spares.transactional (Market.doBuy_terminates hs)
  | list => exact Market.list_terminates
  | unlist => exact Market.unlist_terminates
  | makeOffer => exact Market.makeOffer_terminates
  | withdrawOffer => exact Market.withdrawOffer_terminates
  | acceptOffer => exact Market.acceptOffer_terminates hs

/-- A state in which every extrinsic returns that does not name as the new
owner of an NFT one below it. -/
def Responsive (s : State W) : Prop :=
  ∀ o call, NamesNoDescendent s (.signed o call) → Terminates (dispatch o call) s

/-- Nobody can reject an NFT that is above itself. -/
theorem rejectNft_diverges (h : TransGen (Points s.parent) x x) :
    dispatch o (.rejectNft x) s = .error .diverge s := by
  have hrun : Walk.run (lookupStep s) keyCount x = none := by
    rw [Option.eq_none_iff_forall_not_mem]
    intro r hr
    rw [← next_lookupStep] at h
    exact (Walk.returns_of_run hr).not_transGen h
  have hlookup : lookupRootOwner x s = .error .diverge s := by
    rw [lookupRootOwner, get_bind, hrun]
    rfl
  exact transactional_of_error (bind_of_error hlookup)

/-- **Forests are the states in which everybody is answered.** -/
theorem responsive_iff (hsound : Sound s) : Responsive s ↔ Acyclic s.parent :=
  ⟨fun h x hx => h (nftToAccountId x) (.rejectNft x) trivial s (rejectNft_diverges hx),
    fun hs _ _ => dispatch_terminates hsound hs⟩

/-- **Liveness of a run.** In all of its states every such extrinsic
returns, to any signer, exactly if no call of the run has named as the new
owner of an NFT the virtual account of that NFT or of one below it. -/
theorem responsive_throughout_iff (hr : IsRun h s) :
    Run.Throughout Responsive h s ↔ ∀ e ∈ h, NamesNoDescendent e.1 e.2 := by
  refine Run.throughout_iff (fun s h0 => ?_) ?_ hr
  · exact (responsive_iff (Reachable.sound (Run.start h0).reachable)).2 (acyclic_genesis h0)
  · intro s act s' hreach hs hstep
    have hsound := Reachable.sound hreach
    have hsound' : Sound s' := by
      obtain ⟨h, hr⟩ := hreach
      exact Reachable.sound (hr.step hstep).reachable
    rw [responsive_iff hsound']
    exact acyclic_step hsound ((responsive_iff hsound).1 hs) hstep

/-! ## A run in which every extrinsic returns -/

namespace Mock

/-- Bob sells Charlie an NFT with a child. -/
def soldParent : List Extrinsic :=
  [(charlie, .buy (0, 0) none), (bob, .list (0, 0) 100 none),
    (alice, .send (0, 0) (.accountId bob)), (alice, mintInto (0, 0)), (alice, mintTo alice),
    (alice, newCollection)]

/-- **Nobody is kept waiting** at any time of this run. -/
theorem responsive_soldParent :
    Run.Throughout Responsive (history soldParent) (replay soldParent) := by
  refine (responsive_throughout_iff (isRun_replay (by decide +kernel))).2 ?_
  have hno : ∀ {a : AccountId} {s : State Storage} {x : NftKey},
      decodeNftAccountId a = none → NotBelow s a x := fun h p hp => by simp [h] at hp
  simp only [soldParent, history, List.forall_mem_cons, List.not_mem_nil, false_imp_iff,
    implies_true, and_true]
  exact ⟨hno (by decide +kernel), trivial, hno (by decide +kernel), trivial,
    hno (by decide +kernel), trivial⟩

end Mock

end Rmrk
