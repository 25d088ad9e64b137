import Rmrk.Helpers.Given
import Rmrk.Properties.Ledgers
import Rmrk.Properties.Slots
/-!
# What may be equipped

An item may be equipped if it is a child of the equipper that has been
accepted, and if both have the resources the slot asks for. `do_equip`
reads copies of these facts: the owner on record in place of that of
`pallet_uniques`, the two indexes in place of the resources. Whether the
item has been accepted it does not ask. Here is when the copies are true
of the facts.
-/

namespace Rmrk

open Effect

variable {W : Type} [Config W] {s s' : State W} {act : Act W} {h : List (State W × Act W)}
variable {x y item equipper : NftKey} {o : AccountId} {r : ResourceId} {b : BaseId} {sl : SlotId}

/-! ## The property -/

/-- **`o` may equip** `equipper` with `item`: the slot is empty, the item
an accepted child of the equipper that is not equipped, both are `o`'s at
the root, and the equipper has a composable resource on the base, the item
the resource for the slot, and the slot the collection of the item. -/
structure Equippable (s : State W) (o : AccountId) (item equipper : NftKey) (r : ResourceId)
    (b : BaseId) (sl : SlotId) : Prop where
  empty : s.equippings (equipper, b, sl) = none
  record : ∃ nft, s.nfts item = some nft ∧ nft.equipped = false ∧ nft.pending = false
  roots : RootOwner s item o ∧ RootOwner s equipper o
  child : s.owner item = some (nftToAccountId equipper)
  base : ∃ r' res, s.resources (equipper, r') = some res ∧ res.resource.composableBase = some b
  slot : ∃ res, s.resources (item, r) = some res ∧ res.resource.designated = some (b, sl)
  part : ∃ p, s.parts (b, sl) = some (.slotPart p) ∧
    (p.equippable = .all ∨ ∃ l, p.equippable = .custom l ∧ item.1 ∈ l)

/-! ## What a run says of a record -/

/-- The record of `x` has the account of `newOwner` for its owner. -/
def RecordedAs (s : State W) (x : NftKey) (newOwner : AccountIdOrCollectionNftTuple) : Prop :=
  ∃ nft, s.nfts x = some nft ∧ nft.owner.account = newOwner.account

/-- **The record of `x` has followed its owner**: the last transfer wrote
both, or was to the owner on record. -/
def Follows : List (State W × Act W) → NftKey → Prop
  | [], _ => True
  | (s, .signed _ (.mintNft _ c _ _ _ _ _)) :: h, x
  | (s, .signed _ (.mintNftDirectlyToNft _ c _ _ _ _ _)) :: h, x =>
      x = (c, s.nextNftId c) ∨ Follows h x
  | (s, .signed o (.send y newOwner)) :: h, x =>
      if x = y then ApprovalRequired s o newOwner → RecordedAs s x newOwner else Follows h x
  | (s, .signed _ (.acceptNft y newOwner)) :: h, x =>
      if x = y then RecordedAs s x newOwner else Follows h x
  | (_, .signed _ (.buy y _)) :: h, x | (_, .signed _ (.acceptOffer y _)) :: h, x =>
      x = y ∨ Follows h x
  | _ :: h, x => Follows h x

/-- **Who owns `x` has agreed to it**: since it was last accepted, or else
minted, by its root owner, no transfer of it has needed approval. -/
def Ratified : List (State W × Act W) → NftKey → Prop
  | [], _ => True
  | (s, .signed o (.mintNft owner c _ _ _ _ _)) :: h, x =>
      if x = (c, s.nextNftId c) then owner.getD o = o else Ratified h x
  | (s, .signed o (.mintNftDirectlyToNft p c _ _ _ _ _)) :: h, x =>
      if x = (c, s.nextNftId c) then RootOwner s p o else Ratified h x
  | (s, .signed o (.send y newOwner)) :: h, x =>
      (x = y → ¬ ApprovalRequired s o newOwner) ∧ Ratified h x
  | (_, .signed _ (.acceptNft y _)) :: h, x => x = y ∨ Ratified h x
  | _ :: h, x => Ratified h x

theorem follows_of_still (hstill : act.still = true) : Follows ((s, act) :: h) x ↔ Follows h x := by
  cases act with
  | between => exact Iff.rfl
  | signed o c => cases c <;> first | exact Iff.rfl | simp [Act.still, Call.still] at hstill

theorem ratified_of_still (hstill : act.still = true) :
    Ratified ((s, act) :: h) x ↔ Ratified h x := by
  cases act with
  | between => exact Iff.rfl
  | signed o c => cases c <;> first | exact Iff.rfl | simp [Act.still, Call.still] at hstill

/-! ### Whom the record names -/

/-- Both ledgers have been written at `y`. -/
theorem owner_iff_of_put {a : AccountId} {nft nft' : NftInfo} {p q : Prop}
    (hs : ∀ nft, s.nfts x = some nft → (s.owner x = some nft.owner.account ↔ p))
    (howner : s'.owner = Function.update s.owner y (some a)) (hnfts : s'.nfts = s.nfts.insert y nft)
    (hy : x = y → (a = nft.owner.account ↔ q)) (hne : x ≠ y → (q ↔ p))
    (hx : s'.nfts x = some nft') : s'.owner x = some nft'.owner.account ↔ q := by
  by_cases hxy : x = y
  · subst hxy
    rw [hnfts, StorageMap.insert_self, Option.some.injEq] at hx
    rw [howner, Function.update_self, Option.some.injEq, ← hx, hy rfl]
  · rw [hnfts, StorageMap.insert_of_ne hxy] at hx
    rw [howner, Function.update_of_ne hxy, hs nft' hx, hne hxy]

theorem owner_iff_of_eq {nft' : NftInfo} {p : Prop}
    (hs : ∀ nft, s.nfts x = some nft → (s.owner x = some nft.owner.account ↔ p))
    (howner : s'.owner x = s.owner x) (hrec : ∃ nft, s.nfts x = some nft ∧ nft.owner = nft'.owner) :
    s'.owner x = some nft'.owner.account ↔ p := by
  obtain ⟨nft, hnft, ho⟩ := hrec
  rw [howner, ← ho, hs nft hnft]

theorem Minted.key_eq {a : AccountId} {nft : NftInfo} (h : Minted x a nft s s') :
    (x.1, s.nextNftId x.1) = x := Prod.ext rfl h.next

omit [Config W] in
/-- What is destroyed is not on record. -/
theorem Destroyed.nfts_eq {q : Option NftKey} {nft : NftInfo} (h : Destroyed y q s s')
    (hx : s'.nfts x = some nft) : s.nfts x = some nft ∧ x ≠ y := by
  have hb : ¬ Below s y x := fun hb => by simp [h.nfts_below x hb] at hx
  exact ⟨h.nfts_else x hb ▸ hx, by rintro rfl; exact hb .refl⟩

/-- A transfer that needs approval leaves the record to its owner. -/
theorem Sent.follows_iff {old new : AccountId} {newOwner : AccountIdOrCollectionNftTuple}
    {nft nft' : NftInfo} (h : Sent o x newOwner old new nft nft' s s') :
    new = nft'.owner.account ↔ (ApprovalRequired s o newOwner → RecordedAs s x newOwner) := by
  have hrec : RecordedAs s x newOwner ↔ nft.owner.account = new := by
    simp [RecordedAs, h.nfts_eq, h.target.account]
  by_cases ha : ApprovalRequired s o newOwner
  · rw [h.unapproved ha, hrec]
    exact ⟨fun hnew _ => hnew.symm, fun hnew => (hnew ha).symm⟩
  · rw [h.approved ha]
    exact iff_of_true h.target.account.symm fun hyes => absurd hyes ha

theorem owner_iff_step (hs : ∀ nft, s.nfts x = some nft →
    (s.owner x = some nft.owner.account ↔ Follows h x)) (hstep : Step s act s') {nft : NftInfo}
    (hx : s'.nfts x = some nft) :
    s'.owner x = some nft.owner.account ↔ Follows ((s, act) :: h) x := by
  cases hstep.outcome with
  | silent hstill hq =>
      rw [follows_of_still hstill]
      exact owner_iff_of_eq hs (by rw [hq.owner]) ⟨nft, hq.nfts ▸ hx, rfl⟩
  | noted hstill hq =>
      rw [follows_of_still hstill]
      exact owner_iff_of_eq hs (by rw [hq.owner]) ⟨nft, hq.nfts ▸ hx, rfl⟩
  | mintNft howner _ hm =>
      refine owner_iff_of_put hs hm.owner hm.nfts (fun hxy => ?_) (fun hne => ?_) hx
      · exact iff_of_true (by rw [howner]; rfl) (.inl (hxy.trans hm.key_eq.symm))
      · exact or_iff_right (hm.key_eq ▸ hne)
  | mintNftDirectlyToNft howner _ _ hm =>
      refine owner_iff_of_put hs hm.owner hm.nfts (fun hxy => ?_) (fun hne => ?_) hx
      · exact iff_of_true (by rw [howner]; rfl) (.inl (hxy.trans hm.key_eq.symm))
      · exact or_iff_right (hm.key_eq ▸ hne)
  | send hsent =>
      refine owner_iff_of_put hs hsent.owner hsent.nfts ?_ ?_ hx
      · rintro rfl
        rw [hsent.follows_iff]
        simp [Follows]
      · intro hne
        simp [Follows, hne]
  | @acceptNft o y newOwner new nft' ha =>
      refine owner_iff_of_put hs ha.owner ha.nfts ?_ ?_ hx
      · rintro rfl
        simp [Follows, RecordedAs, ha.nfts_eq, ha.target.account, eq_comm]
      · intro hne
        simp [Follows, hne]
  | burnNft _ hd howner =>
      obtain ⟨hold, hne⟩ := hd.nfts_eq hx
      exact owner_iff_of_eq hs (by rw [howner, Function.update_of_ne hne]) ⟨nft, hold, rfl⟩
  | rejectNft _ _ hd howner =>
      exact owner_iff_of_eq hs (by rw [howner]) ⟨nft, (hd.nfts_eq hx).1, rfl⟩
  | unequip hw => exact owner_iff_of_eq hs (by rw [hw.owner]) (hw.owner_eq hx)
  | equip hw => exact owner_iff_of_eq hs (by rw [hw.owner]) (hw.owner_eq hx)
  | list _ _ _ hp => exact owner_iff_of_eq hs (by rw [hp.owner]) ⟨nft, hp.nfts ▸ hx, rfl⟩
  | unlist _ hp => exact owner_iff_of_eq hs (by rw [hp.owner]) ⟨nft, hp.nfts ▸ hx, rfl⟩
  | buy _ _ _ hsent =>
      refine owner_iff_of_put hs hsent.owner hsent.nfts (fun hxy => ?_) or_iff_right hx
      exact iff_of_true (hsent.follows_iff.2 fun hap => hap.elim) (.inl hxy)
  | acceptOffer _ hsent =>
      refine owner_iff_of_put hs hsent.owner hsent.nfts (fun hxy => ?_) or_iff_right hx
      exact iff_of_true (hsent.follows_iff.2 fun hap => hap.elim) (.inl hxy)

/-! ### Whether the record waits -/

omit [Config W] in
/-- The record of `y` has been written. -/
theorem pending_iff_of_put {nft nft' : NftInfo} {p q : Prop}
    (hs : ∀ nft, s.nfts x = some nft → (nft.pending = false ↔ p))
    (hnfts : s'.nfts = s.nfts.insert y nft) (hy : x = y → (nft.pending = false ↔ q))
    (hne : x ≠ y → (q ↔ p)) (hx : s'.nfts x = some nft') : nft'.pending = false ↔ q := by
  by_cases hxy : x = y
  · rw [hnfts, hxy, StorageMap.insert_self, Option.some.injEq] at hx
    rw [← hx, hy hxy]
  · rw [hnfts, StorageMap.insert_of_ne hxy] at hx
    rw [hs nft' hx, hne hxy]

/-- A transfer that needs approval leaves the record waiting for it. -/
theorem Sent.pending_iff {old new : AccountId} {newOwner : AccountIdOrCollectionNftTuple}
    {nft nft' : NftInfo} (h : Sent o x newOwner old new nft nft' s s') :
    nft'.pending = false ↔ ¬ ApprovalRequired s o newOwner ∧ nft.pending = false := by
  by_cases ha : ApprovalRequired s o newOwner
  · simp [h.unapproved ha, ha]
  · simp [h.approved ha, ha]

/-- What is minted for somebody else waits for him. -/
theorem Core.mintNft_pending {owner : Option AccountId} {c : CollectionId}
    {rr : Option AccountId} {ro : Option Permill} {md : BoundedString} {tr : Bool}
    {res : Option (List ResourceTypes)} {u : Unit}
    (h : Core.mintNft o owner c rr ro md tr res s = .ok u s') :
    ∃ nft, s'.nfts = s.nfts.insert (c, s.nextNftId c) nft ∧
      (nft.pending = false ↔ owner.getD o = o) := by
  obtain ⟨n, col, s₁, s₂, w, hid, hrec, hw, h⟩ := Core.mintNft_parts h
  have hm := Core.minted_of_parts hid hrec rfl hw h
  obtain rfl : s.nextNftId c = n := hm.next
  exact ⟨_, hm.nfts, by simp⟩

theorem Core.mintNftDirectlyToNft_pending {p : NftKey} {c : CollectionId}
    {rr : Option AccountId} {ro : Option Permill} {md : BoundedString} {tr : Bool}
    {res : Option (List ResourceTypes)} {u : Unit}
    (h : Core.mintNftDirectlyToNft o p c rr ro md tr res s = .ok u s') :
    ∃ nft, s'.nfts = s.nfts.insert (c, s.nextNftId c) nft ∧
      (nft.pending = false ↔ RootOwner s p o) := by
  obtain ⟨n, col, s₁, s₂, a, w, hid, hroot, hrec, hw, h⟩ := Core.mintNftDirectlyToNft_parts h
  have hm := Core.minted_of_parts hid hrec rfl hw h
  obtain rfl : s.nextNftId c = n := hm.next
  refine ⟨_, hm.nfts, ?_⟩
  rw [decide_eq_false_iff_not, not_not]
  exact ⟨fun ha => ha ▸ hroot, hroot.unique⟩

theorem pending_iff_step (hs : ∀ nft, s.nfts x = some nft → (nft.pending = false ↔ Ratified h x))
    (hstep : Step s act s') {nft : NftInfo} (hx : s'.nfts x = some nft) :
    nft.pending = false ↔ Ratified ((s, act) :: h) x := by
  cases hstep.outcome with
  | silent hstill hq =>
      rw [ratified_of_still hstill]
      exact hs nft (hq.nfts ▸ hx)
  | noted hstill hq =>
      rw [ratified_of_still hstill]
      exact hs nft (hq.nfts ▸ hx)
  | mintNft =>
      obtain ⟨nft', hnfts, hpending⟩ := Core.mintNft_pending hstep
      refine pending_iff_of_put hs hnfts (fun hxy => ?_) (fun hne => ?_) hx
      · rw [hpending, Ratified, if_pos hxy]
      · rw [Ratified, if_neg hne]
  | mintNftDirectlyToNft =>
      obtain ⟨nft', hnfts, hpending⟩ := Core.mintNftDirectlyToNft_pending hstep
      refine pending_iff_of_put hs hnfts (fun hxy => ?_) (fun hne => ?_) hx
      · rw [hpending, Ratified, if_pos hxy]
      · rw [Ratified, if_neg hne]
  | send hsent =>
      refine pending_iff_of_put hs hsent.nfts ?_ ?_ hx
      · rintro rfl
        rw [hsent.pending_iff, hs _ hsent.nfts_eq]
        simp [Ratified]
      · intro hne
        simp [Ratified, hne]
  | acceptNft ha =>
      refine pending_iff_of_put hs ha.nfts (fun hxy => ?_) (fun hne => ?_) hx
      · exact iff_of_true rfl (.inl hxy)
      · exact or_iff_right hne
  | burnNft _ hd => exact hs nft (hd.nfts_eq hx).1
  | rejectNft _ _ hd => exact hs nft (hd.nfts_eq hx).1
  | unequip hw =>
      obtain ⟨nft', hnft', hrec⟩ := hw.record hx
      rw [hrec]
      exact hs nft' hnft'
  | equip hw =>
      obtain ⟨nft', hnft', hrec⟩ := hw.record hx
      rw [hrec]
      exact hs nft' hnft'
  | list _ _ _ hp => exact hs nft (hp.nfts ▸ hx)
  | unlist _ hp => exact hs nft (hp.nfts ▸ hx)
  | buy _ _ _ hsent =>
      refine pending_iff_of_put hs hsent.nfts ?_ (fun _ => Iff.rfl) hx
      rintro rfl
      rw [hsent.pending_iff, hs _ hsent.nfts_eq]
      exact and_iff_right id
  | acceptOffer _ hsent =>
      refine pending_iff_of_put hs hsent.nfts ?_ (fun _ => Iff.rfl) hx
      rintro rfl
      rw [hsent.pending_iff, hs _ hsent.nfts_eq]
      exact and_iff_right id

/-- **The record of every NFT, read off the run.** -/
theorem record_iff (hr : IsRun h s) {nft : NftInfo} (hx : s.nfts x = some nft) :
    (s.owner x = some nft.owner.account ↔ Follows h x) ∧ (nft.pending = false ↔ Ratified h x) := by
  induction hr generalizing nft with
  | start h0 =>
      obtain ⟨w, -, -, rfl⟩ := h0
      simp [genesis] at hx
  | step hr hstep ih =>
      exact ⟨owner_iff_step (fun _ hnft => (ih hnft).1) hstep hx,
        pending_iff_step (fun _ hnft => (ih hnft).2) hstep hx⟩

/-! ## What a filling shows -/

/-- **What `do_equip` looked at is true of the NFTs**, as the run shows:
the item has been accepted, its record has followed its owner, its resource
has not been removed, and neither has one of those on the base that the
equipper was given. -/
structure Current (h : List (State W × Act W)) (item equipper : NftKey) (r : ResourceId)
    (b : BaseId) : Prop where
  ratified : Ratified h item
  follows : Follows h item
  base : ∃ r' body, Given h (equipper, r') body ∧ body.composableBase = some b ∧
    ¬ Removed h (equipper, r')
  slot : ¬ Removed h (item, r)

theorem isEquippable_iff {l : EquippableList} {c : CollectionId} :
    Equip.isEquippable l c = true ↔ l = .all ∨ ∃ cs, l = .custom cs ∧ c ∈ cs := by
  cases l <;> simp [Equip.isEquippable]

/-- **Equip soundness.** A call that fills a slot may do so exactly if what
it looked at is true. -/
theorem equippable_iff (hr : IsRun h s)
    (h' : Equip.doEquip o item equipper r b sl s = .ok true s') :
    Equippable s o item equipper r b sl ↔ Current h item equipper r b := by
  rcases Equip.doEquip_ok h' with ⟨hno, -⟩ | ⟨-, hempty, hchecked, hroots⟩
  · cases hno
  obtain ⟨nft, hnft, hequipped, howner⟩ := hchecked.record
  obtain ⟨hfollows, hratified⟩ := record_iff hr hnft
  rw [howner] at hfollows
  constructor
  · intro hs
    obtain ⟨nft', hnft', -, hpending⟩ := hs.record
    obtain rfl := Option.some.inj (hnft.symm.trans hnft')
    obtain ⟨r', res, hres, hb⟩ := hs.base
    obtain ⟨hgiven, hremoved⟩ := (bodies_iff hr).1 (congrArg (Option.map _) hres)
    obtain ⟨res', hres', -⟩ := hs.slot
    exact {
      ratified := hratified.1 hpending
      follows := hfollows.1 hs.child
      base := ⟨r', _, hgiven, hb, hremoved⟩
      slot := ((bodies_iff hr).1 (congrArg (Option.map _) hres')).2 }
  · intro hc
    obtain ⟨r', body, hgiven, hb, hremoved⟩ := hc.base
    obtain ⟨res, hres, rfl⟩ := Option.map_eq_some_iff.1 ((bodies_iff hr).2 ⟨hgiven, hremoved⟩)
    obtain ⟨body', hgiven', hq⟩ := (equippableSlots_iff hr).1 hchecked.slot
    obtain ⟨res', hres', rfl⟩ := Option.map_eq_some_iff.1 ((bodies_iff hr).2 ⟨hgiven', hc.slot⟩)
    obtain ⟨p, hp, hon⟩ := hchecked.part
    exact {
      empty := hempty
      record := ⟨nft, hnft, hequipped, hratified.2 hc.ratified⟩
      roots := hroots
      child := hfollows.2 hc.follows
      base := ⟨r', res, hres, hb⟩
      slot := ⟨res', hres', hq⟩
      part := ⟨p, hp, isEquippable_iff.1 hon⟩ }

/-! ## Fillings that may be and may not be -/

namespace Mock

/-- Whether a call returns `true`. -/
def reports (m : M Storage Bool) (s : State Storage) : Bool :=
  match m s with
  | .ok e _ => e
  | .error _ _ => false

theorem exists_of_reports {m : M Storage Bool} {s : State Storage} (h : reports m s = true) :
    ∃ s', m s = .ok true s' := by
  unfold reports at h
  split at h
  · next e s' hm =>
      subst h
      exact ⟨s', hm⟩
  · cases h

/-- Alice mints an NFT into one of Bob's, and makes them fit at the slot 1
of a base. -/
def unaccepted : List Extrinsic :=
  [(alice, .createBase [] [] [.slotPart ⟨1, .all, none, 0⟩]),
    (alice, .addSlotResource (0, 1) wearable), (alice, .addComposableResource (0, 0) composable),
    (alice, mintInto (0, 0)), (alice, mintTo bob), (alice, newCollection)]

/-- **Bob equips what he has not accepted.** -/
theorem not_equippable_of_reachable : ¬ ∀ s : State Storage, Reachable s →
    ∀ o item equipper r b sl s', Equip.doEquip o item equipper r b sl s = .ok true s' →
      Equippable s o item equipper r b sl := by
  intro hall
  obtain ⟨s', h⟩ := exists_of_reports (m := Equip.doEquip bob (0, 1) (0, 0) 0 0 1)
    (s := replay unaccepted) (by decide +kernel)
  have hs := hall _ (reachable_replay (by decide +kernel)) _ _ _ _ _ _ _ h
  obtain ⟨nft, hnft, -, hpending⟩ := hs.record
  have hwaits : ((replay unaccepted).nfts (0, 1)).map NftInfo.pending = some true := by
    decide +kernel
  simp [hnft, hpending] at hwaits

/-- Alice may equip the one of her NFTs with the other. -/
theorem equippable_fitting : Equippable (replay fitting) alice (0, 1) (0, 0) 0 0 1 := by
  obtain ⟨s', h⟩ := exists_of_reports (m := Equip.doEquip alice (0, 1) (0, 0) 0 0 1)
    (s := replay fitting) (by decide +kernel)
  have howned : RootOwner (replay [(alice, mintTo alice), (alice, mintTo alice),
      (alice, newCollection)]) (0, 0) alice :=
    (rootOwner_of_owner (a := alice) (by decide +kernel) (by decide +kernel)).2 rfl
  have hkept : ∀ k, ¬ Removed (history fitting) k := by
    simp [Removed, Run.Past, fitting, history, Act.Removes, mintTo, newCollection]
  refine (equippable_iff (isRun_replay (by decide +kernel)) h).2 ⟨?_, ?_, ?_, hkept _⟩
  · simp only [fitting, history, Ratified, mintTo, newCollection]
    refine ⟨fun _ => not_not.2 howned, ?_⟩
    split_ifs <;> trivial
  · simp only [fitting, history, Follows, mintTo, newCollection, if_true]
    exact fun hap => absurd howned hap
  · refine ⟨0, .composable composable, ?_, rfl, hkept _⟩
    unfold fitting
    refine Run.past_cons.2 (.inr (Run.past_cons.2 (.inr (Run.past_cons.2 (.inl (.inl ⟨rfl, ?_⟩))))))
    decide +kernel

end Mock

end Rmrk
