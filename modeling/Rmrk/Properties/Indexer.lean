import Rmrk.Common.Footprint
import Rmrk.Helpers.Escrow
import Rmrk.Helpers.Issued
import Rmrk.Helpers.Register
import Rmrk.Properties.Charters
import Rmrk.Properties.Themes
/-!
# What an indexer keeps

An indexer sees the extrinsics that went through and never the storage. Of
each it knows the signer and the arguments; here is what it can keep from
them alone, ledger by ledger: who writes the ledger, and what. Each ledger
is what the runtime has stored, after every step.
-/

namespace Rmrk

open Effect

variable {W : Type} [Config W] {s s' : State W} {act : Act W} {o : AccountId}

/-! ## The machine -/

/-- The ledgers. -/
@[ext] structure Indexer where
  owner : StorageMap NftKey AccountId
  nextNftId : CollectionId → NftId
  collectionIndex : CollectionId
  issuer : StorageMap CollectionId AccountId
  lock : NftKey → Bool
  listedNfts : StorageMap NftKey ListInfo
  offers : StorageMap (NftKey × AccountId) Offer
  properties : StorageMap (CollectionId × Option NftId × BoundedString) BoundedString
  priorities : StorageMap (NftKey × ResourceId) UInt32
  themes : StorageMap (BaseId × BoundedString × BoundedString) BoundedString
  nextBaseId : BaseId
  bases : StorageMap BaseId BaseInfo
  parts : StorageMap (BaseId × PartId) PartType
  equippings : StorageMap (NftKey × BaseId × SlotId) ResourceId

/-- **What is stored of them.** -/
def State.indexer (s : State W) : Indexer where
  owner := s.owner
  nextNftId := s.nextNftId
  collectionIndex := s.collectionIndex
  issuer := s.issuer
  lock := s.lock
  listedNfts := s.listedNfts
  offers := s.offers
  properties := s.properties
  priorities := s.priorities
  themes := s.themeOf
  nextBaseId := s.nextBaseId
  bases := s.bases
  parts := s.parts
  equippings := s.equippings

/-- The list of a slot part, written over. -/
def PartType.withEquippable (l : EquippableList) : PartType → PartType
  | .slotPart p => .slotPart { p with equippable := l }
  | .fixedPart p => .fixedPart p

namespace Indexer

/-- Nothing yet. -/
def blank : Indexer where
  owner _ := none
  nextNftId _ := 0
  collectionIndex := 0
  issuer _ := none
  lock _ := false
  listedNfts _ := none
  offers _ := none
  properties _ := none
  priorities _ := none
  themes _ := none
  nextBaseId := 0
  bases _ := none
  parts _ := none
  equippings _ := none

variable (v : Indexer)

/-- `reject_nft` destroys an NFT and leaves it its owner. -/
def owners : Act W → StorageMap NftKey AccountId
  | .signed o (.mintNft owner c ..) => v.owner.insert (c, v.nextNftId c) (owner.getD o)
  | .signed _ (.mintNftDirectlyToNft p c ..) =>
      v.owner.insert (c, v.nextNftId c) (nftToAccountId p)
  | .signed _ (.send x t) | .signed _ (.acceptNft x t) => v.owner.insert x t.account
  | .signed o (.buy x _) => v.owner.insert x o
  | .signed _ (.acceptOffer x offerer) => v.owner.insert x offerer
  | .signed _ (.burnNft x _) => v.owner.remove x
  | _ => v.owner

/-- Both mints take the next number, and a burn gives none back. -/
def nftIds : Act W → CollectionId → NftId
  | .signed _ (.mintNft _ c ..) | .signed _ (.mintNftDirectlyToNft _ c ..) =>
      Function.update v.nextNftId c (v.nextNftId c + 1)
  | _ => v.nextNftId

/-- Nor does destroying a collection. -/
def collectionCount : Act W → CollectionId
  | .signed _ (.createCollection ..) => v.collectionIndex + 1
  | _ => v.collectionIndex

/-- A new issuer that is no account's address leaves the old one. -/
def issuers : Act W → StorageMap CollectionId AccountId
  | .signed o (.createCollection ..) => v.issuer.insert v.collectionIndex o
  | .signed _ (.destroyCollection c) => v.issuer.remove c
  | .signed _ (.changeCollectionIssuer c source) =>
      Function.update v.issuer c ((Config.lookup source).toOption.or (v.issuer c))
  | _ => v.issuer

/-- Listing locks. Taking the listing out unlocks, and so does either sale. -/
def locks : Act W → NftKey → Bool
  | .signed _ (.list x ..) => Function.update v.lock x true
  | .signed _ (.unlist x) | .signed _ (.buy x _) | .signed _ (.acceptOffer x _) =>
      Function.update v.lock x false
  | _ => v.lock

/-- `accept_offer` unlocks an NFT and leaves it its listing. -/
def listings : Act W → StorageMap NftKey ListInfo
  | .signed o (.list x amount expires) => v.listedNfts.insert x { listedBy := o, amount, expires }
  | .signed _ (.unlist x) | .signed _ (.buy x _) => v.listedNfts.remove x
  | _ => v.listedNfts

/-- An offer is under its maker, who alone withdraws it. -/
def openOffers : Act W → StorageMap (NftKey × AccountId) Offer
  | .signed o (.makeOffer x amount expires) =>
      v.offers.insert (x, o) { maker := o, amount, expires }
  | .signed o (.withdrawOffer x) => v.offers.remove (x, o)
  | .signed _ (.acceptOffer x offerer) => v.offers.remove (x, offerer)
  | _ => v.offers

/-- A property is written over, never taken out. -/
def propertiesSet : Act W → StorageMap (CollectionId × Option NftId × BoundedString) BoundedString
  | .signed _ (.setProperty c n k value) => v.properties.insert (c, n, k) value
  | _ => v.properties

/-- The old order of the NFT goes as a whole. -/
def ranks : Act W → StorageMap (NftKey × ResourceId) UInt32
  | .signed _ (.setPriority x l) => (v.priorities.removePrefix x).insertAll (Core.ranked x l 0)
  | _ => v.priorities

/-- A theme's properties go in under its name. -/
def themesAdded : Act W → StorageMap (BaseId × BoundedString × BoundedString) BoundedString
  | .signed _ (.themeAdd b theme) => v.themes.insertAll (Equip.entries b theme)
  | _ => v.themes

/-- A base is never taken out, and its number never given again. -/
def baseCount : Act W → BaseId
  | .signed _ (.createBase ..) => v.nextBaseId + 1
  | _ => v.nextBaseId

/-- The issuer is all that changes of a base. -/
def baseInfos : Act W → StorageMap BaseId BaseInfo
  | .signed o (.createBase baseType symbol parts) =>
      v.bases.insert v.nextBaseId { issuer := o, baseType, symbol, parts }
  | .signed _ (.changeBaseIssuer b source) =>
      v.bases.mutate b fun base =>
        { base with issuer := (Config.lookup source).toOption.getD base.issuer }
  | _ => v.bases

/-- Two parts of one number in the list of a new base leave the later. -/
def baseParts : Act W → StorageMap (BaseId × PartId) PartType
  | .signed _ (.createBase _ _ parts) => Equip.putParts v.nextBaseId v.parts parts
  | .signed _ (.equippable b sl l) => v.parts.mutate (b, sl) (PartType.withEquippable l)
  | _ => v.parts

/-- A slot that is filled is emptied, and an empty one is filled. -/
def toggled (r : ResourceId) : Option ResourceId → Option ResourceId
  | some _ => none
  | none => some r

/-- A slot holds the resource of an item, not the item. -/
def slots : Act W → StorageMap (NftKey × BaseId × SlotId) ResourceId
  | .signed _ (.equip _ equipper r b sl) =>
      Function.update v.equippings (equipper, b, sl) (toggled r (v.equippings (equipper, b, sl)))
  | _ => v.equippings

/-- **One extrinsic is taken in.** -/
def take (act : Act W) (v : Indexer) : Indexer where
  owner := v.owners act
  nextNftId := v.nftIds act
  collectionIndex := v.collectionCount act
  issuer := v.issuers act
  lock := v.locks act
  listedNfts := v.listings act
  offers := v.openOffers act
  properties := v.propertiesSet act
  priorities := v.ranks act
  themes := v.themesAdded act
  nextBaseId := v.baseCount act
  bases := v.baseInfos act
  parts := v.baseParts act
  equippings := v.slots act

end Indexer

/-! ## What moves -/

/-- What the outcome of a step is about. -/
structure Moves (s s' : State W) (act : Act W) : Prop where
  owner : s'.owner = s.indexer.owners act
  nextNftId : s'.nextNftId = s.indexer.nftIds act
  lock : s'.lock = s.indexer.locks act
  listedNfts : s'.listedNfts = s.indexer.listings act
  equippings : s'.equippings = s.indexer.slots act

/-- A quiet step moves nothing an indexer keeps. -/
theorem Quiet.moves (h : Quiet s s') (hact : act.still = true) : Moves s s' act := by
  cases act with
  | between =>
      exact ⟨h.owner, h.nextNftId, h.lock, h.listedNfts, h.equippings⟩
  | signed o call =>
      cases call <;> first
        | exact ⟨h.owner, h.nextNftId, h.lock, h.listedNfts, h.equippings⟩
        | exact Bool.noConfusion (show false = true from hact)

/-- **What a step moves is in its label**, and in who made the offer it
accepts. -/
theorem Step.moves (hmaker : ∀ x a offer, s.offers (x, a) = some offer → offer.maker = a)
    (hstep : Step s act s') : Moves s s' act := by
  cases hstep.outcome with
  | silent hstill h => exact h.moves hstill
  | noted hstill h => exact h.moves hstill
  | @mintNft o owner c _ _ _ _ _ n _ _ _ h =>
      obtain rfl : s.nextNftId c = n := h.next
      exact ⟨h.owner, h.nextNftId, h.lock, h.listedNfts, h.equippings⟩
  | @mintNftDirectlyToNft o p c _ _ _ _ _ n _ _ _ _ _ h =>
      obtain rfl : s.nextNftId c = n := h.next
      exact ⟨h.owner, h.nextNftId, h.lock, h.listedNfts, h.equippings⟩
  | send h _ hlist =>
      refine ⟨?_, h.nextNftId, hlist.lock, hlist.listedNfts, h.equippings⟩
      rw [h.owner, ← h.target.account]
      rfl
  | acceptNft h =>
      refine ⟨?_, h.nextNftId, h.lock, h.listedNfts, h.equippings⟩
      rw [h.owner, ← h.target.account]
      rfl
  | burnNft _ h howner => exact ⟨howner, h.nextNftId, h.lock, h.listedNfts, h.equippings⟩
  | rejectNft _ _ h howner => exact ⟨howner, h.nextNftId, h.lock, h.listedNfts, h.equippings⟩
  | @unequip o item equipper r b sl h hfilled =>
      refine ⟨h.owner, h.nextNftId, h.lock, h.listedNfts, ?_⟩
      obtain ⟨r', hr'⟩ := Option.isSome_iff_exists.1 hfilled
      simp only [Indexer.slots, State.indexer, hr', h.equippings, Indexer.toggled]
  | equip h hempty =>
      refine ⟨h.owner, h.nextNftId, h.lock, h.listedNfts, ?_⟩
      simp only [Indexer.slots, State.indexer, hempty, h.equippings, Indexer.toggled]
  | list _ _ _ h => exact ⟨h.owner, h.nextNftId, h.lock, h.listedNfts, h.equippings⟩
  | unlist _ h => exact ⟨h.owner, h.nextNftId, h.lock, h.listedNfts, h.equippings⟩
  | buy _ _ _ h hlock hlisted => exact ⟨h.owner, h.nextNftId, hlock, hlisted, h.equippings⟩
  | @acceptOffer o offerer x offer _ _ hoffer h _ hlock hlisted =>
      obtain rfl : offer.maker = offerer := hmaker x offerer offer hoffer
      exact ⟨h.owner, h.nextNftId, hlock, hlisted, h.equippings⟩

/-! ## What is jotted down -/

/-- The properties, the priorities, the themes and the offers. -/
def State.notebook (s : State W) := (s.properties, s.priorities, s.themes, s.offers)

/-- The extrinsics that write there. -/
def Call.jots : Call W → Bool
  | .setProperty .. | .setPriority .. | .themeAdd .. | .makeOffer .. | .withdrawOffer ..
  | .acceptOffer .. => true
  | _ => false

/-- Sending writes in no notebook. -/
theorem send_notebook (a : AccountId) (x : NftKey) (t : AccountIdOrCollectionNftTuple) :
    Within (Same State.notebook) (Core.send a x t : M W Unit) :=
  Core.within_send (fun _ _ => rfl) (fun _ _ _ _ _ => rfl) fun _ _ => rfl

/-- **Nor does any other extrinsic**: each is framed by what it writes. -/
theorem dispatch_notebook {call : Call W} (hcall : call.jots = false) :
    Within (Same State.notebook) (dispatch o call) := by
  have hadded : ∀ (a : AccountId) (x : NftKey) (l : Option (List ResourceTypes)),
      Within (Same State.notebook) (Core.addResources a x l : M W Unit) := fun _ _ _ =>
    Core.within_addResources (fun _ _ => rfl) (fun _ _ => rfl) (fun _ _ => rfl) fun _ _ => rfl
  have hadd : ∀ (a : AccountId) (x : NftKey) (r : ResourceTypes),
      Within (Same State.notebook) (Core.addResource a x r : M W Unit) := fun _ _ _ =>
    Core.within_addResource (fun _ _ => rfl) (fun _ _ => rfl) (fun _ _ => rfl) fun _ _ => rfl
  cases call with
  | mintNft =>
      exact Core.within_mintNft (fun _ _ => rfl) (fun _ _ => rfl) (fun _ _ => rfl)
        (fun _ _ _ _ _ => rfl) hadded
  | mintNftDirectlyToNft =>
      exact Core.within_mintNftDirectlyToNft (fun _ _ => rfl) (fun _ _ => rfl) (fun _ _ => rfl)
        (fun _ _ _ _ _ => rfl) hadded
  | createCollection =>
      exact Core.within_createCollection (fun _ _ => rfl) (fun _ _ => rfl) fun _ _ _ _ => rfl
  | burnNft =>
      exact Core.within_burnNft (fun _ _ => rfl) (fun _ _ => rfl) (fun _ _ => rfl)
        (fun _ _ => rfl) fun _ _ _ => rfl
  | destroyCollection => exact Core.within_destroyCollection (fun _ _ => rfl) fun _ _ _ _ => rfl
  | send => exact send_notebook _ _ _
  | acceptNft => exact Core.within_acceptNft (fun _ _ => rfl) fun _ _ _ _ _ => rfl
  | rejectNft =>
      exact Core.within_rejectNft (fun _ _ => rfl) (fun _ _ => rfl) (fun _ _ => rfl) fun _ _ => rfl
  | changeCollectionIssuer =>
      exact Core.within_changeCollectionIssuer (fun _ _ => rfl) fun _ _ _ _ _ => rfl
  | lockCollection => exact Core.within_lockCollection fun _ _ => rfl
  | addBasicResource => exact hadd _ _ _
  | addComposableResource => exact hadd _ _ _
  | addSlotResource => exact hadd _ _ _
  | acceptResource => exact Core.within_acceptResource fun _ _ => rfl
  | removeResource => exact Core.within_removeResource fun _ _ => rfl
  | acceptResourceRemoval => exact Core.within_acceptResourceRemoval fun _ _ => rfl
  | changeBaseIssuer => exact Equip.within_changeBaseIssuer fun _ _ => rfl
  | equip => exact Equip.within_equip (fun _ _ => rfl) fun _ _ => rfl
  | equippable => exact Equip.within_equippable fun _ _ => rfl
  | createBase => exact Equip.within_createBase (fun _ _ => rfl) (fun _ _ => rfl) fun _ _ => rfl
  | buy =>
      exact .transactional (Market.within_doBuy (fun _ _ => rfl) (fun _ _ => rfl)
        (fun _ _ _ _ _ => rfl) fun _ => send_notebook _ _ _)
  | list => exact Market.within_list (fun _ _ => rfl) fun _ _ => rfl
  | unlist => exact Market.within_unlist (fun _ _ => rfl) fun _ _ => rfl
  | _ => simp [Call.jots] at hcall

/-- What a step writes there. -/
structure Jots (s s' : State W) (act : Act W) : Prop where
  offers : s'.offers = s.indexer.openOffers act
  properties : s'.properties = s.indexer.propertiesSet act
  priorities : s'.priorities = s.indexer.ranks act
  themes : s'.themeOf = s.indexer.themesAdded act

/-- An extrinsic without an entry of its own leaves the notebook as it was. -/
theorem Jots.of_same {call : Call W} (hcall : call.jots = false) (h : Same State.notebook s s') :
    Jots s s' (.signed o call) := by
  simp only [Same, State.notebook, Prod.mk.injEq] at h
  obtain ⟨hprop, hprio, hthemes, hoffers⟩ := h
  have htheme : s'.themeOf = s.themeOf := congrArg Entries.read hthemes
  cases call <;> first
    | exact ⟨hoffers, hprop, hprio, htheme⟩
    | exact Bool.noConfusion (show true = false from hcall)

/-- **What a step jots down is in its label.** -/
theorem Step.jots (hstep : Step s act s') : Jots s s' act := by
  cases act with
  | between n w =>
      obtain ⟨-, -, rfl⟩ := hstep
      exact ⟨rfl, rfl, rfl, rfl⟩
  | signed o call =>
      have h : dispatch o call s = .ok () s' := hstep
      by_cases hcall : call.jots = false
      · exact .of_same hcall (dispatch_notebook hcall _ _ _ h)
      · cases call with
        | setProperty c n k value =>
            obtain ⟨-, rfl⟩ := Core.setProperty_writes h
            exact ⟨rfl, rfl, rfl, rfl⟩
        | setPriority =>
            obtain ⟨-, -, rfl⟩ := Core.setPriority_writes h
            exact ⟨rfl, rfl, rfl, rfl⟩
        | themeAdd b theme =>
            obtain ⟨-, -, -, hthemes⟩ := Equip.themeAdd_writes h
            have hrest : Same (fun s : State W => (s.properties, s.priorities, s.offers)) s s' :=
              Equip.within_themeAdd (fun _ _ => rfl) _ _ _ h
            simp only [Same, Prod.mk.injEq] at hrest
            exact ⟨hrest.2.2, hrest.1, hrest.2.1, hthemes⟩
        | makeOffer =>
            obtain ⟨-, -, w, -, rfl⟩ := Market.makeOffer_reserves h
            exact ⟨rfl, rfl, rfl, rfl⟩
        | withdrawOffer =>
            obtain ⟨offer, owner, -, -, -, rfl⟩ := Market.withdrawOffer_iff.1 h
            exact ⟨rfl, rfl, rfl, rfl⟩
        | acceptOffer x offerer =>
            obtain ⟨offer, t, -, -, -, hbuy, rfl⟩ := Market.acceptOffer_parts h
            have hsame := Market.within_doBuy (R := Same State.notebook) (fun _ _ => rfl)
              (fun _ _ => rfl) (fun _ _ _ _ _ => rfl) (fun _ => send_notebook _ _ _) _ _ _ hbuy
            simp only [Same, State.notebook, Prod.mk.injEq] at hsame
            obtain ⟨hprop, hprio, hthemes, hoffers⟩ := hsame
            exact ⟨congrArg (StorageMap.remove · (x, offerer)) hoffers, hprop, hprio,
              congrArg Entries.read hthemes⟩
        | _ => exact absurd rfl hcall

/-! ## What is founded -/

/-- What a step does to the collections and their issuers, and to the
bases. -/
structure Founds (s s' : State W) (act : Act W) : Prop where
  collectionIndex : s'.collectionIndex = s.indexer.collectionCount act
  issuer : s'.issuer = s.indexer.issuers act
  nextBaseId : s'.nextBaseId = s.indexer.baseCount act
  bases : s'.bases = s.indexer.baseInfos act
  parts : s'.parts = s.indexer.baseParts act

/-- The counter of collections moves at a new collection only. -/
theorem Registered.sameIndex (h : Registered s s' act) (hact : act.charters = false) :
    s'.collectionIndex = s.collectionIndex := by
  cases h with
  | same _ h => exact h.collectionIndex
  | minted _ h => exact h.collectionIndex
  | created => simp [Act.charters, Call.charters] at hact
  | destroyed hindex => exact hindex
  | issuerChanged hindex => exact hindex
  | locked hindex => exact hindex
  | burned _ h => exact h.collectionIndex

/-- A step that founds nothing leaves all of this alone. -/
theorem Founds.of_same {call : Call W} (hcharters : call.charters = false)
    (hcatalogs : call.catalogs = false) (hindex : s'.collectionIndex = s.collectionIndex)
    (hissuer : s'.issuer = s.issuer) (h : Same State.catalog s s') :
    Founds s s' (.signed o call) := by
  simp only [Same, State.catalog, Prod.mk.injEq] at h
  obtain ⟨hbases, hparts, hnext⟩ := h
  cases call <;> first
    | exact ⟨hindex, hissuer, hnext, hbases, hparts⟩
    | exact Bool.noConfusion (show true = false from hcharters)
    | exact Bool.noConfusion (show true = false from hcatalogs)

omit [Config W] in
/-- A hand over, to who reads issuers. -/
theorem issuer_mutate {c : CollectionId} {col : CollectionInfo} {a : AccountId}
    (hcol : s.collections c = some col)
    (h : s'.collections = s.collections.mutate c fun col => { col with issuer := a }) :
    s'.issuer = Function.update s.issuer c (some a) := by
  rw [State.issuer, h, StorageMap.mutate, Function.comp_update, hcol]
  rfl

/-- **What a step founds is in its label**, and in what the lookup answers. -/
theorem Step.founds (hstep : Step s act s') : Founds s s' act := by
  cases act with
  | between n w =>
      obtain ⟨-, -, rfl⟩ := hstep
      exact ⟨rfl, rfl, rfl, rfl, rfl⟩
  | signed o call =>
      have h : dispatch o call s = .ok () s' := hstep
      by_cases hcharters : call.charters = false
      · have hindex := hstep.registered.sameIndex hcharters
        have hissuer := hstep.registered.sameIssuer hcharters
        by_cases hcatalogs : call.catalogs = false
        · exact .of_same hcharters hcatalogs hindex hissuer (dispatch_catalog hcatalogs _ _ _ h)
        · cases call with
          | createBase =>
              obtain ⟨-, rfl⟩ := Equip.createBase_writes h
              exact ⟨rfl, rfl, rfl, rfl, rfl⟩
          | equippable b sl l =>
              obtain ⟨q, -, hpart, rfl⟩ := Equip.equippable_writes h
              refine ⟨rfl, rfl, rfl, rfl, ?_⟩
              simp only [Indexer.baseParts, State.indexer, StorageMap.mutate, hpart]
              rfl
          | changeBaseIssuer =>
              obtain ⟨base, a, -, -, ha, rfl⟩ := Equip.changeBaseIssuer_checks h
              refine ⟨rfl, rfl, rfl, ?_, rfl⟩
              simp only [Indexer.baseInfos, ha, Except.toOption, Option.getD_some]
              rfl
          | _ => exact absurd rfl hcatalogs
      · cases call with
        | createCollection =>
            obtain ⟨-, w, -, hs'⟩ := Core.createCollection_writes h
            have hissuer := issuer_insert (congrArg State.collections hs')
            subst hs'
            exact ⟨rfl, hissuer, rfl, rfl, rfl⟩
        | destroyCollection c =>
            obtain ⟨-, d, w, -, rfl⟩ := Core.destroyCollection_writes h
            refine ⟨rfl, ?_, rfl, rfl, rfl⟩
            rw [State.issuer, StorageMap.remove, Function.comp_update]
            rfl
        | changeCollectionIssuer c =>
            obtain ⟨col, a, w, hcol, -, ha, -, hs'⟩ := Core.changeCollectionIssuer_checks h
            have hissuer := issuer_mutate hcol (congrArg State.collections hs')
            subst hs'
            refine ⟨rfl, ?_, rfl, rfl, rfl⟩
            simp only [Indexer.issuers, ha, Except.toOption, Option.some_or]
            exact hissuer
        | _ => exact absurd rfl hcharters

/-! ## Every run -/

/-- **An offer is stored under its maker.** -/
theorem Reachable.maker (hr : Reachable s) {x : NftKey} {a : AccountId} {offer : Offer}
    (hoffer : s.offers (x, a) = some offer) : offer.maker = a := by
  refine hr.invariant (P := fun s => ∀ x a offer, s.offers (x, a) = some offer → offer.maker = a)
    (fun s h0 => ?_) (fun s act s' _ hs hstep => ?_) x a offer hoffer
  · obtain ⟨w, -, -, rfl⟩ := h0
    simp [genesis]
  · intro x a offer hoffer
    rw [hstep.jots.offers] at hoffer
    unfold Indexer.openOffers at hoffer
    split at hoffer
    · rcases StorageMap.insert_eq_some_iff.1 hoffer with ⟨hk, rfl⟩ | ⟨-, hoffer⟩
      · exact (congrArg Prod.snd hk).symm
      · exact hs x a offer hoffer
    · exact hs x a offer (StorageMap.remove_eq_some_iff.1 hoffer).2
    · exact hs x a offer (StorageMap.remove_eq_some_iff.1 hoffer).2
    · exact hs x a offer hoffer

/-- **One step is one label**, to an indexer. -/
theorem Step.indexer (hr : Reachable s) (hstep : Step s act s') :
    s'.indexer = s.indexer.take act := by
  have hmoves := hstep.moves fun x a offer => hr.maker
  have hjots := hstep.jots
  have hfounds := hstep.founds
  apply Indexer.ext
  · exact hmoves.owner
  · exact hmoves.nextNftId
  · exact hfounds.collectionIndex
  · exact hfounds.issuer
  · exact hmoves.lock
  · exact hmoves.listedNfts
  · exact hjots.offers
  · exact hjots.properties
  · exact hjots.priorities
  · exact hjots.themes
  · exact hfounds.nextBaseId
  · exact hfounds.bases
  · exact hfounds.parts
  · exact hmoves.equippings

/-- Genesis is blank. -/
theorem indexer_genesis (h : Genesis s) : s.indexer = .blank := by
  obtain ⟨w, howner, -, rfl⟩ := h
  have hnone : (genesis w).owner = fun _ => none := funext howner
  simp only [State.indexer, hnone]
  rfl

/-- The labels of a run, the latest first. -/
def labels (h : List (State W × Act W)) : List (Act W) := h.map Prod.snd

/-- **An indexer needs no storage.** Over every run what it keeps of the
extrinsics alone is what is stored: who owns what, the locks, listings and
offers, the properties, priorities and themes, the issuers, the bases and
their parts, and what is in each slot. -/
theorem indexer_run {h : List (State W × Act W)} (hr : IsRun h s) :
    s.indexer = (labels h).foldr Indexer.take .blank := by
  refine Run.replay (fun s h0 => ?_) (fun _ _ _ hr hstep => hstep.indexer hr) hr
  exact indexer_genesis h0

namespace Mock

/-- Bob buys one NFT of Alice's, and she takes his offer on the other. -/
def traded : List Extrinsic :=
  [(alice, .acceptOffer (0, 1) bob), (bob, .buy (0, 0) none), (bob, .makeOffer (0, 1) 60 none),
    (alice, .list (0, 0) 100 none), (alice, mintTo alice), (alice, mintTo alice),
    (alice, newCollection)]

/-- **Both are Bob's**, to who has seen the extrinsics only. -/
theorem indexer_traded :
    (replay traded).indexer = (labels (history traded)).foldr Indexer.take .blank ∧
      (replay traded).indexer.owner (0, 0) = some bob ∧
      (replay traded).indexer.owner (0, 1) = some bob :=
  ⟨indexer_run (isRun_replay (by decide +kernel)), by decide +kernel, by decide +kernel⟩

end Mock

end Rmrk
