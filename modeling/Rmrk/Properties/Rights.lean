import Rmrk.Properties.Order
/-!
# Who may write what

The ledgers an indexer keeps, entry by entry, with who may write each: the
root owner of an NFT, its owner, the issuer of its collection, the issuer
of a base, the maker of an offer. Two entries are open to anyone while the
state says so: an NFT that is up for sale, and a slot that is filled.
-/

namespace Rmrk

open Effect

variable {W : Type} [Config W] {s s' : State W} {act : Act W} {h : List (State W × Act W)}
variable {x p : NftKey} {o : AccountId} {c : CollectionId} {b : BaseId} {k : Cell}

/-! ## The rights -/

/-- **An NFT is up for sale**, by its owner and in time. -/
def ForSale (s : State W) (x : NftKey) : Prop :=
  ∃ info, s.listedNfts x = some info ∧ s.owner x = some info.listedBy ∧
    Market.expired s info.expires = false

/-- The issuer of a base, where there is one. -/
def State.baseIssuer (s : State W) (b : BaseId) : Option AccountId :=
  (s.bases b).map BaseInfo.issuer

/-- **Who may write an entry.** -/
def Entitled (s : State W) (o : AccountId) : Cell → Prop
  | .owner x => RootOwner s x o ∨ ForSale s x ∨ x.2 = s.nextNftId x.1 ∧ s.issuer x.1 = some o
  | .nextNftId c => s.issuer c = some o
  | .issuer c => s.issuer c = some o ∨ c = s.collectionIndex
  | .lock x | .listing x => s.owner x = some o ∨ ForSale s x
  | .offer x a => a = o ∨ s.owner x = some o
  | .property (c, n, _) => s.issuer c = some o ∧
      ∀ m, n = some m → RootOwner s (c, m) o ∧ s.lock (c, m) = false
  | .priority x _ => RootOwner s x o ∧ s.lock x = false
  | .theme b _ _ => s.baseIssuer b = some o
  | .base b | .part b _ => s.baseIssuer b = some o ∨ b = s.nextBaseId
  -- `equip` empties a slot for who names an NFT of his own, or one that is not there
  | .slot q => RootOwner s q.1 o ∨ (s.equippings q).isSome = true
  | .collectionIndex | .nextBaseId => True

/-! ## What the calls check -/

namespace Core

/-- Both mints ask for the owner of the collection first. -/
theorem owner_of_checkCollectionOwner {α : Type} {f : Unit → M W α} {a : α}
    (h : (checkCollectionOwner o c >>= f) s = .ok a s') : s.collectionOwner c = some o := by
  simp only [checkCollectionOwner, bind_assoc, get_bind_ok, okOr_bind_ok, ensure_bind_ok] at h
  obtain ⟨owner, howner, rfl, -⟩ := h
  exact howner

theorem mintNft_by {owner rr : Option AccountId} {r : Option Permill} {md : BoundedString}
    {tr : Bool} {res : Option (List ResourceTypes)} {u : Unit}
    (h : mintNft o owner c rr r md tr res s = .ok u s') : s.collectionOwner c = some o :=
  owner_of_checkCollectionOwner (transactional_ok.1 h)

theorem mintNftDirectlyToNft_by {rr : Option AccountId} {r : Option Permill} {md : BoundedString}
    {tr : Bool} {res : Option (List ResourceTypes)} {u : Unit}
    (h : mintNftDirectlyToNft o p c rr r md tr res s = .ok u s') :
    s.collectionOwner c = some o :=
  owner_of_checkCollectionOwner (transactional_ok.1 h)

end Core

omit [Config W] in
theorem baseIssuer_of_eq {base : BaseInfo} (h : s.bases b = some base) :
    s.baseIssuer b = some base.issuer := congrArg (Option.map _) h

theorem Equip.themeAdd_by {theme : Theme} {u : Unit} (h : Equip.themeAdd o b theme s = .ok u s') :
    s.baseIssuer b = some o := by
  simp only [themeAdd, addTheme, ensure_bind_ok, get_bind_ok, okOr_bind_ok] at h
  obtain ⟨-, base, hbase, rfl, -⟩ := h
  exact baseIssuer_of_eq hbase

/-- A slot that is empty is filled by the root owner of the equipper. -/
theorem Equip.equip_by {item equipper : NftKey} {r : ResourceId} {sl : SlotId} {u : Unit}
    (h : Equip.equip o item equipper r b sl s = .ok u s') :
    RootOwner s equipper o ∨ (s.equippings (equipper, b, sl)).isSome = true := by
  rw [equip, bind_ok] at h
  obtain ⟨e, _, hequip, -⟩ := h
  rcases (doEquip_writes hequip).2 with ⟨-, -, hfilled, -⟩ | ⟨-, -, -, -, -, hroot⟩
  · exact .inr hfilled
  · exact .inl hroot

/-! ## One step -/

/-- A mint writes the next identifier of its collection, and the owner of
the NFT that gets it. -/
theorem entitled_of_minted {n : NftId} {a : AccountId} {nft : NftInfo}
    (hissuer : s.issuer c = some o) (h : Minted (c, n) a nft s s')
    (hk : s'.indexer.look k ≠ s.indexer.look k)
    (htouch : k = .nextNftId c ∨ ∃ m, k = .owner (c, m)) : Entitled s o k := by
  rcases htouch with rfl | ⟨m, rfl⟩
  · exact hissuer
  · obtain rfl : s.nextNftId c = n := h.next
    have hm : m = s.nextNftId c := by
      by_contra hne
      refine hk ?_
      change s'.owner (c, m) = s.owner (c, m)
      rw [h.owner]
      exact Function.update_of_ne (fun heq => hne (congrArg Prod.snd heq)) _ _
    exact .inr (.inr ⟨hm, hissuer⟩)

/-- What is listed by its owner is up for sale. -/
theorem forSale_of_buy {v : Option Balance} {u : Unit} (h : Market.buy o x v s = .ok u s') :
    ForSale s x := by
  obtain ⟨old, info, nft, nft', hinfo, rfl, hexp, hsent, -⟩ := Market.buy_ok h
  exact ⟨info, hinfo, hsent.owner_eq, hexp⟩

/-! ### Entry by entry -/

variable {call : Call W} {a : AccountId} {r : ResourceId} {i : PartId}
variable {name key : BoundedString} {q : NftKey × BaseId × SlotId}

/-- An owner is written by a mint into the collection and by the calls that
move or burn the NFT. -/
theorem entitled_owner (hcharter : Chartered s) (h : dispatch o call s = .ok () s')
    (hk : s'.indexer.look (.owner x) ≠ s.indexer.look (.owner x))
    (htouch : call.touches o (.owner x)) : Entitled s o (.owner x) := by
  cases call with
  | mintNft owner c =>
      obtain ⟨n, nft, -, -, hminted⟩ := Core.mintNft_ok h
      have hissuer := (hcharter.owner c).symm.trans (Core.mintNft_by h)
      exact entitled_of_minted hissuer hminted hk htouch
  | mintNftDirectlyToNft p c =>
      obtain ⟨n, nft, -, -, -, hminted⟩ := Core.mintNftDirectlyToNft_ok h
      have hissuer := (hcharter.owner c).symm.trans (Core.mintNftDirectlyToNft_by h)
      exact entitled_of_minted hissuer hminted hk htouch
  | burnNft y =>
      obtain rfl : x = y := Cell.owner.inj htouch
      exact .inl (Core.burnNft_ok h).1
  | send y =>
      obtain rfl : x = y := Cell.owner.inj htouch
      obtain ⟨old, new, nft, nft', hsent, -⟩ := Core.send_ok h
      exact .inl hsent.root
  | acceptNft y =>
      obtain rfl : x = y := Cell.owner.inj htouch
      obtain ⟨new, nft, haccepted⟩ := Core.acceptNft_ok h
      exact .inl haccepted.root
  | buy y =>
      obtain rfl : x = y := by simpa [Call.touches] using htouch
      exact .inr (.inl (forSale_of_buy h))
  | acceptOffer y =>
      obtain rfl : x = y := by simpa [Call.touches] using htouch
      obtain ⟨offer, nft, nft', -, -, hsent, -⟩ := Market.acceptOffer_ok h
      exact .inl hsent.root
  | _ => simp [Call.touches] at htouch

theorem entitled_nextNftId (hcharter : Chartered s) (h : dispatch o call s = .ok () s')
    (htouch : call.touches o (.nextNftId c)) : Entitled s o (.nextNftId c) := by
  cases call with
  | mintNft owner d =>
      obtain rfl : c = d := by simpa [Call.touches] using htouch
      exact (hcharter.owner c).symm.trans (Core.mintNft_by h)
  | mintNftDirectlyToNft p d =>
      obtain rfl : c = d := by simpa [Call.touches] using htouch
      exact (hcharter.owner c).symm.trans (Core.mintNftDirectlyToNft_by h)
  | _ => simp [Call.touches] at htouch

/-- A new collection's issuer is written under its own number only, and one
that is destroyed is destroyed by its owner. -/
theorem entitled_issuer (hdestroy : ∀ {w w' : W} {c d a},
      Uniques.doDestroyCollection w c d a = .ok w' → Uniques.collectionOwner w c = some a)
    (hcharter : Chartered s) (h : dispatch o call s = .ok () s')
    (hk : s'.indexer.look (.issuer c) ≠ s.indexer.look (.issuer c))
    (htouch : call.touches o (.issuer c)) : Entitled s o (.issuer c) := by
  cases call with
  | createCollection =>
      obtain ⟨-, w, -, hs'⟩ := Core.createCollection_writes h
      refine .inr ?_
      by_contra hne
      refine hk ?_
      change s'.issuer c = s.issuer c
      rw [issuer_insert (congrArg State.collections hs')]
      exact Function.update_of_ne hne _ _
  | destroyCollection d =>
      obtain rfl : c = d := Cell.issuer.inj htouch
      obtain ⟨-, d, w, hw, -⟩ := Core.destroyCollection_writes h
      exact .inl ((hcharter.owner c).symm.trans (hdestroy hw))
  | changeCollectionIssuer d =>
      obtain rfl : c = d := Cell.issuer.inj htouch
      obtain ⟨col, a, w, hcol, rfl, -⟩ := Core.changeCollectionIssuer_checks h
      exact .inl (issuer_of_eq hcol)
  | _ => simp [Call.touches] at htouch

/-- A lock and a listing are the owner's to write, and go with a sale. -/
theorem entitled_listed (h : dispatch o call s = .ok () s')
    (htouch : call.touches o (.lock x) ∨ call.touches o (.listing x)) :
    s.owner x = some o ∨ ForSale s x := by
  cases call with
  | buy y =>
      obtain rfl : x = y := by simpa [Call.touches] using htouch
      exact .inr (forSale_of_buy h)
  | list y =>
      obtain rfl : x = y := by simpa [Call.touches] using htouch
      exact .inl (Market.list_writes h).1
  | unlist y =>
      obtain rfl : x = y := by simpa [Call.touches] using htouch
      exact .inl (Market.unlist_ok h).2.1
  | acceptOffer y =>
      obtain rfl : x = y := by simpa [Call.touches] using htouch
      obtain ⟨offer, nft, nft', -, -, hsent, -⟩ := Market.acceptOffer_ok h
      exact .inl hsent.owner_eq
  | _ => simp [Call.touches] at htouch

/-- An offer is its maker's to make and to withdraw, and the owner's to
accept. -/
theorem entitled_offer (h : dispatch o call s = .ok () s')
    (htouch : call.touches o (.offer x a)) : Entitled s o (.offer x a) := by
  cases call with
  | makeOffer => exact .inl (Cell.offer.inj htouch).2
  | withdrawOffer => exact .inl (Cell.offer.inj htouch).2
  | acceptOffer y b =>
      obtain ⟨rfl, rfl⟩ : x = y ∧ a = b := by simpa [Call.touches] using htouch
      obtain ⟨offer, nft, nft', -, -, hsent, -⟩ := Market.acceptOffer_ok h
      exact .inr hsent.owner_eq
  | _ => simp [Call.touches] at htouch

theorem entitled_property {e : CollectionId × Option NftId × BoundedString}
    (h : dispatch o call s = .ok () s') (htouch : call.touches o (.property e)) :
    Entitled s o (.property e) := by
  cases call with
  | setProperty =>
      obtain rfl := Cell.property.inj htouch
      obtain ⟨⟨⟨col, hcol, rfl⟩, hon⟩, -⟩ := Core.setProperty_writes h
      exact ⟨issuer_of_eq hcol, fun m hm => (hon m hm).symm⟩
  | _ => simp [Call.touches] at htouch

theorem entitled_priority (h : dispatch o call s = .ok () s')
    (htouch : call.touches o (.priority x r)) : Entitled s o (.priority x r) := by
  cases call with
  | setPriority y =>
      obtain rfl : x = y := by simpa [Call.touches] using htouch
      obtain ⟨hroot, hlock, -⟩ := Core.setPriority_writes h
      exact ⟨hroot, hlock⟩
  | _ => simp [Call.touches] at htouch

theorem entitled_theme (h : dispatch o call s = .ok () s')
    (htouch : call.touches o (.theme b name key)) : Entitled s o (.theme b name key) := by
  cases call with
  | themeAdd d =>
      obtain ⟨p, -, hp⟩ := htouch
      obtain rfl : b = d := (Cell.theme.inj hp).1
      exact Equip.themeAdd_by h
  | _ => simp [Call.touches] at htouch

/-- A base is its issuer's to hand over, and a new one goes under its own
number. -/
theorem entitled_base (h : dispatch o call s = .ok () s')
    (hk : s'.indexer.look (.base b) ≠ s.indexer.look (.base b))
    (htouch : call.touches o (.base b)) : Entitled s o (.base b) := by
  cases call with
  | changeBaseIssuer d =>
      obtain rfl : b = d := Cell.base.inj htouch
      obtain ⟨base, a, hbase, rfl, -⟩ := Equip.changeBaseIssuer_checks h
      exact .inl (baseIssuer_of_eq hbase)
  | createBase =>
      obtain ⟨-, hs'⟩ := Equip.createBase_writes h
      refine .inr ?_
      by_contra hne
      refine hk ?_
      change s'.bases b = s.bases b
      rw [hs']
      exact StorageMap.insert_of_ne hne
  | _ => simp [Call.touches] at htouch

theorem entitled_part (h : dispatch o call s = .ok () s')
    (hk : s'.indexer.look (.part b i) ≠ s.indexer.look (.part b i))
    (htouch : call.touches o (.part b i)) : Entitled s o (.part b i) := by
  cases call with
  | equippable d =>
      obtain rfl : b = d := (Cell.part.inj htouch).1
      obtain ⟨base, q, hbase, rfl, -⟩ := Equip.equippable_checks h
      exact .inl (baseIssuer_of_eq hbase)
  | createBase =>
      obtain ⟨-, hs'⟩ := Equip.createBase_writes h
      refine .inr ?_
      by_contra hne
      refine hk ?_
      change s'.parts (b, i) = s.parts (b, i)
      rw [hs']
      exact Equip.putParts_of_ne hne
  | _ => simp [Call.touches] at htouch

theorem entitled_slot (h : dispatch o call s = .ok () s')
    (htouch : call.touches o (.slot q)) : Entitled s o (.slot q) := by
  cases call with
  | equip =>
      obtain rfl := Cell.slot.inj htouch
      exact Equip.equip_by h
  | _ => simp [Call.touches] at htouch

/-! ### Any entry -/

/-- **Who signs a step that changes an entry may write it.** A collection
is destroyed by its owner, as `pallet_uniques` checks. -/
theorem Step.entitled [CollectionOwners W] (hdestroy : ∀ {w w' : W} {c d a},
      Uniques.doDestroyCollection w c d a = .ok w' → Uniques.collectionOwner w c = some a)
    (hr : Reachable s) (hstep : Step s act s') (hk : s'.indexer.look k ≠ s.indexer.look k) :
    ∃ o call, act = .signed o call ∧ Entitled s o k := by
  have hcharter := Reachable.chartered hr
  have htouch : act.touches k := by
    by_contra hno
    exact hk (hstep.look_eq hr hno)
  cases act with
  | between => exact htouch.elim
  | signed o call =>
      refine ⟨o, call, rfl, ?_⟩
      cases k with
      | owner x => exact entitled_owner hcharter hstep hk htouch
      | nextNftId c => exact entitled_nextNftId hcharter hstep htouch
      | collectionIndex => trivial
      | issuer c => exact entitled_issuer hdestroy hcharter hstep hk htouch
      | lock x => exact entitled_listed hstep (.inl htouch)
      | listing x => exact entitled_listed hstep (.inr htouch)
      | offer x a => exact entitled_offer hstep htouch
      | property e => exact entitled_property hstep htouch
      | priority x r => exact entitled_priority hstep htouch
      | theme b name key => exact entitled_theme hstep htouch
      | nextBaseId => trivial
      | base b => exact entitled_base hstep hk htouch
      | part b i => exact entitled_part hstep hk htouch
      | slot q => exact entitled_slot hstep htouch

/-! ## Every run -/

section Owners

variable [CollectionOwners W]

/-- **Rights.** In every state of every run nobody changes an entry but by
a call of his own, on an entry that he may write; so what an entry holds
at the end was put there by somebody who could, and has stayed since. -/
theorem entitled_run (hdestroy : ∀ {w w' : W} {c d a},
      Uniques.doDestroyCollection w c d a = .ok w' → Uniques.collectionOwner w c = some a)
    (hr : IsRun h s) :
    (∀ act s' k, Step s act s' → s'.indexer.look k ≠ s.indexer.look k →
      ∃ o call, act = .signed o call ∧ Entitled s o k) ∧
    ∀ k, s.indexer.look k ≠ Indexer.blank.look k →
      ∃ newer s₁ o call s₂ older, h = newer ++ (s₁, .signed o call) :: older ∧
        Step s₁ (.signed o call) s₂ ∧ Entitled s₁ o k ∧
        s₁.indexer.look k ≠ s.indexer.look k ∧
        ∀ e ∈ newer, e.1.indexer.look k = s.indexer.look k := by
  refine ⟨fun act s' k hstep hk => hstep.entitled hdestroy hr.reachable hk, fun k hk => ?_⟩
  have hblank : ∀ t : State W, Genesis t → t.indexer.look k ≠ s.indexer.look k := by
    intro t h0 heq
    rw [indexer_genesis h0] at heq
    exact hk heq.symm
  obtain ⟨newer, s₁, act, s₂, older, hh, hnewer, hchanged, hr₁, hstep, hput⟩ :=
    hr.since (P := fun t => t.indexer.look k = s.indexer.look k) hblank rfl
  obtain ⟨o, call, rfl, hright⟩ := hstep.entitled hdestroy hr₁.reachable (k := k)
    fun heq => hchanged (heq.symm.trans hput)
  exact ⟨newer, s₁, o, call, s₂, older, hh, hstep, hright, hchanged, hnewer⟩

end Owners

namespace Mock

/-- **Bob is the issuer** of what Alice has founded, by a call of the issuer
he follows. -/
theorem entitled_handedOver : ∃ newer s₁ o call s₂ older,
    handover = newer ++ (s₁, .signed o call) :: older ∧
      Step s₁ (.signed o call) s₂ ∧ Entitled s₁ o (.issuer 0) ∧
      s₁.indexer.look (.issuer 0) ≠ handedOver.indexer.look (.issuer 0) ∧
      ∀ e ∈ newer, e.1.indexer.look (.issuer 0) = handedOver.indexer.look (.issuer 0) := by
  refine (entitled_run (fun h => (ite_failed_ok.1 h).1) isRun_handover).2 (.issuer 0)
    fun hblank => ?_
  have hbob : handedOver.issuer 0 = some bob := by decide +kernel
  cases hbob.symm.trans hblank

end Mock

end Rmrk
