import Rmrk.Helpers.Given
import Rmrk.Properties.Identifiers
import Rmrk.Properties.Rights
/-!
# A new name comes blank

A collection, an NFT and a base go by a number that nobody has had before.
Nothing has been stored under it, in any of the ledgers, and no call can
prepare it: what is new starts with what its own call gives it.
-/

namespace Rmrk

open Effect

variable {W : Type} [Config W] {s s' : State W} {act : Act W} {o : AccountId} {call : Call W}
variable {x : NftKey} {c : CollectionId} {b : BaseId} {k : Cell}

/-- Nothing is noted on an NFT. -/
structure Unmarked (s : State W) (x : NftKey) : Prop where
  lock : s.lock x = false
  listedNfts : s.listedNfts x = none
  offers : ∀ a, s.offers (x, a) = none
  properties : ∀ key, s.properties (x.1, some x.2, key) = none
  priorities : ∀ r, s.priorities (x, r) = none
  equippings : ∀ q, s.equippings (x, q) = none

/-- **Nothing is stored of an NFT**, in any ledger. Others may have been
sent to its account all the same. -/
structure NoNft (s : State W) (x : NftKey) : Prop extends Unmarked s x where
  owner : s.owner x = none
  nfts : s.nfts x = none
  unlisted : ∀ a, x ∉ s.children a
  nextResourceId : s.nextResourceId x = 0
  resources : ∀ r, s.resources (x, r) = none
  equippableBases : ∀ b, s.equippableBases (x, b) = none
  equippableSlots : ∀ r q, s.equippableSlots (x, r, q) = none

/-- **Nothing is stored of a collection**, nor of any NFT in it. -/
structure NoCollection (s : State W) (c : CollectionId) : Prop where
  collections : s.collections c = none
  nextNftId : s.nextNftId c = 0
  properties : ∀ key, s.properties (c, none, key) = none
  nfts : ∀ n, NoNft s (c, n)

/-- **Nothing is stored of a base.** -/
structure NoBase (s : State W) (b : BaseId) : Prop where
  bases : s.bases b = none
  parts : ∀ i, s.parts (b, i) = none
  themes : ∀ name key, s.themeOf (b, name, key) = none

/-- **A new NFT** has been recorded, with the resources its mint brings
under the numbers from zero on, and nothing else. -/
structure Newborn (call : Call W) (x : NftKey) (s' : State W) : Prop extends Unmarked s' x where
  nfts : ∃ nft, s'.nfts x = some nft ∧ nft.equipped = false
  bodies : ∀ r body, s'.bodies (x, r) = some body ↔ (call.brings.getD [])[r.toNat]? = some body
  bases : ∀ b, (s'.equippableBases (x, b)).isSome = true ↔
    ∃ r body, s'.bodies (x, r) = some body ∧ body.composableBase = some b
  slots : ∀ r q, (s'.equippableSlots (x, r, q)).isSome = true ↔
    ∃ body, s'.bodies (x, r) = some body ∧ body.designated = some q

/-! ## Entries under a number not given yet -/

/-- The entry is under a number that has not been given. -/
def Cell.Ahead (s : State W) : Cell → Prop
  | .offer x _ | .priority x _ | .slot (x, _) => s.nextNftId x.1 ≤ x.2
  | .property (c, some n, _) => s.nextNftId c ≤ n
  | .property (c, none, _) => s.collectionIndex ≤ c
  | .theme b _ _ => s.nextBaseId ≤ b
  | _ => False

/-- What is ahead after a step was ahead before. -/
theorem Cell.Ahead.back (hstep : Step s act s') (hk : k.Ahead s') : k.Ahead s := by
  cases k with
  | offer x a => exact hstep.outcome.issued hk
  | priority x r => exact hstep.outcome.issued hk
  | slot q => exact hstep.outcome.issued (z := q.1) hk
  | property q =>
      obtain ⟨c, n, key⟩ := q
      cases n with
      | none =>
          exact UInt32.le_trans (UInt32.le_iff_toNat_le.2 (hstep.counter_le .collections)) hk
      | some n => exact hstep.outcome.issued (z := (c, n)) hk
  | theme b name key =>
      exact UInt32.le_trans (UInt32.le_iff_toNat_le.2 (hstep.counter_le .bases)) hk
  | _ => exact hk

/-- **Nobody writes ahead**: each of the calls asks for what the entry is
under. -/
theorem Step.not_touches_ahead (hr : Reachable s) (hstep : Step s act s') (hk : k.Ahead s)
    (hblank : s.indexer.look k = Indexer.blank.look k) : ¬ act.touches k := by
  intro htouch
  have hs := Reachable.sound hr
  cases act with
  | between => exact htouch
  | signed o call =>
      have h : dispatch o call s = .ok () s' := hstep
      cases k with
      | offer x a =>
          have habsent := hs.absent x hk
          cases call <;> simp only [Act.touches, Call.touches, reduceCtorEq, false_or, or_false,
            exists_false, and_false, Cell.offer.injEq] at htouch
          · obtain ⟨rfl, -⟩ := htouch
            have howner := (Market.makeOffer_reserves h).1
            simp [habsent.owner] at howner
          · obtain ⟨rfl, -⟩ := htouch
            obtain ⟨offer, owner, -, howner, -⟩ := Market.withdrawOffer_iff.1 h
            exact habsent.ne_of_owner howner rfl
          · obtain ⟨rfl, -⟩ := htouch
            obtain ⟨offer, nft, nft', -, -, hsent, -⟩ := Market.acceptOffer_ok h
            exact habsent.ne_of_owner hsent.owner_eq rfl
      | priority x r =>
          cases call <;> simp only [Act.touches, Call.touches, reduceCtorEq, or_false,
            exists_false, and_false, Cell.priority.injEq] at htouch
          obtain ⟨r', rfl, rfl⟩ := htouch
          exact (hs.absent _ hk).ne_of_root (Core.setPriority_writes h).1 rfl
      | slot q =>
          cases call <;> simp only [Act.touches, Call.touches, reduceCtorEq, or_false,
            exists_false, and_false, Cell.slot.injEq] at htouch
          obtain rfl := htouch
          rcases Equip.equip_by h with hroot | hfilled
          · exact (hs.absent _ hk).ne_of_root hroot rfl
          · -- a slot that is ahead is empty
            rw [show s.equippings _ = none from hblank] at hfilled
            cases hfilled
      | property q =>
          cases call <;> simp only [Act.touches, Call.touches, reduceCtorEq, or_false,
            exists_false, and_false, Cell.property.injEq] at htouch
          rename_i c n key v
          obtain rfl := htouch
          obtain ⟨⟨⟨col, hcol, -⟩, hon⟩, -⟩ := Core.setProperty_writes h
          cases n with
          | none =>
              have hlt := (Reachable.orderly hr).numbered c col hcol
              exact Nat.not_le.2 hlt (UInt32.le_iff_toNat_le.1 hk)
          | some n => exact (hs.absent (c, n) hk).ne_of_root (hon n rfl).2 rfl
      | theme b name key =>
          cases call <;> simp only [Act.touches, Call.touches, reduceCtorEq, or_false,
            exists_false, Cell.theme.injEq] at htouch
          obtain ⟨p, -, rfl, -⟩ := htouch
          have hissuer := Equip.themeAdd_by h
          simp [State.baseIssuer, (Reachable.basesNumbered hr).bases _ hk] at hissuer
      | _ => exact hk

/-- **What is ahead is blank.** -/
theorem look_ahead (hr : Reachable s) (hk : k.Ahead s) :
    s.indexer.look k = Indexer.blank.look k := by
  revert hk
  refine hr.invariant (P := fun s => k.Ahead s → s.indexer.look k = Indexer.blank.look k)
    (fun s h0 _ => by rw [indexer_genesis h0]) fun s act s' hr hs hstep hk => ?_
  have hold := hk.back hstep
  exact (hstep.look_eq hr (hstep.not_touches_ahead hr hold (hs hold))).trans (hs hold)

/-! ## NFTs, collections and bases -/

/-- What comes under a number that is ahead is not there. -/
theorem not_gives_ahead (hr : Reachable s) (hstep : Step s act s') (hx : s'.nextNftId x.1 ≤ x.2)
    {r : ResourceId} {body : ResourceTypes} : ¬ act.Gives s (x, r) body := by
  intro hgives
  have hr' := hr.next hstep
  have hbody := ((hstep.turnover hr).bodies (x, r) body).2 (.inr hgives)
  have hnone : s'.resources (x, r) = none := Reachable.shelved hr' x r <| by
    rw [nextResourceId_of_unissued hr' hx]
    exact UInt32.zero_le
  simp [State.bodies, hnone] at hbody

theorem equippable_ahead (hr : Reachable s) (hx : s.nextNftId x.1 ≤ x.2) :
    (∀ b, s.equippableBases (x, b) = none) ∧ ∀ r q, s.equippableSlots (x, r, q) = none := by
  revert hx
  refine hr.invariant (P := fun s => s.nextNftId x.1 ≤ x.2 →
    (∀ b, s.equippableBases (x, b) = none) ∧ ∀ r q, s.equippableSlots (x, r, q) = none)
    (fun s h0 _ => ?_) fun s act s' hr hs hstep hx => ?_
  · obtain ⟨w, -, -, rfl⟩ := h0
    exact ⟨fun _ => rfl, fun _ _ => rfl⟩
  · obtain ⟨hbases, hslots⟩ := hs (hstep.outcome.issued hx)
    have hturn := hstep.turnover hr
    refine ⟨fun b => ?_, fun r q => ?_⟩
    · rw [← Option.not_isSome_iff_eq_none, hturn.bases, hbases]
      rintro (hsome | ⟨r, body, hgives, -⟩)
      · cases hsome
      · exact not_gives_ahead hr hstep hx hgives
    · rw [← Option.not_isSome_iff_eq_none, hturn.slots, hslots]
      rintro (hsome | ⟨body, hgives, -⟩)
      · cases hsome
      · exact not_gives_ahead hr hstep hx hgives

theorem noNft (hr : Reachable s) (hx : s.nextNftId x.1 ≤ x.2) : NoNft s x := by
  have habsent := (Reachable.sound hr).absent x hx
  have hnext := nextResourceId_of_unissued hr hx
  obtain ⟨hbases, hslots⟩ := equippable_ahead hr hx
  exact {
    lock := habsent.lock
    listedNfts := habsent.listedNfts
    offers := fun a => look_ahead (k := .offer x a) hr hx
    properties := fun key => look_ahead (k := .property (x.1, some x.2, key)) hr hx
    priorities := fun r => look_ahead (k := .priority x r) hr hx
    equippings := fun q => look_ahead (k := .slot (x, q)) hr hx
    owner := habsent.owner
    nfts := habsent.nfts
    unlisted := habsent.unlisted
    nextResourceId := hnext
    resources := fun r => Reachable.shelved hr x r (hnext ▸ UInt32.zero_le)
    equippableBases := hbases
    equippableSlots := hslots }

theorem noCollection (hr : Reachable s) (hc : s.collectionIndex ≤ c) : NoCollection s c := by
  have horderly := Reachable.orderly hr
  have hnext : s.nextNftId c = 0 := horderly.fresh c (UInt32.le_iff_toNat_le.1 hc)
  refine ⟨?_, hnext, fun key => look_ahead (k := .property (c, none, key)) hr hc, fun n => ?_⟩
  · cases hcol : s.collections c with
    | none => rfl
    | some col =>
        exact absurd (horderly.numbered c col hcol) (Nat.not_lt.2 (UInt32.le_iff_toNat_le.1 hc))
  · refine noNft hr ?_
    rw [hnext]
    exact UInt32.zero_le

theorem noBase (hr : Reachable s) (hb : s.nextBaseId ≤ b) : NoBase s b where
  bases := (Reachable.basesNumbered hr).bases b hb
  parts i := (Reachable.basesNumbered hr).parts b i hb
  themes name key := look_ahead (k := .theme b name key) hr hb

/-! ## What is new -/

/-- A mint touches an owner, and the number that comes next. -/
theorem Act.touches_of_mints (hact : act.mintsInto = some c) (h : act.touches k) :
    k = .nextNftId c ∨ ∃ n, k = .owner (c, n) := by
  cases act with
  | between => cases hact
  | signed o call =>
      cases call <;> simp only [Act.mintsInto, Option.some.injEq, reduceCtorEq] at hact
      all_goals exact hact ▸ h

/-- A mint records an NFT that is not worn. -/
theorem Step.minted (hstep : Step s act s') (hmints : act.Mints s x) :
    ∃ a nft, Minted x a nft s s' := by
  obtain ⟨c, m⟩ := x
  obtain ⟨hact, hnext⟩ := hmints
  cases act with
  | between => cases hact
  | signed o call =>
      cases call with
      | mintNft =>
          obtain rfl := Option.some.inj hact
          obtain ⟨n, nft, -, -, h⟩ := Core.mintNft_ok hstep
          obtain rfl : m = n := hnext.symm.trans h.next
          exact ⟨_, nft, h⟩
      | mintNftDirectlyToNft =>
          obtain rfl := Option.some.inj hact
          obtain ⟨n, nft, -, -, -, h⟩ := Core.mintNftDirectlyToNft_ok hstep
          obtain rfl : m = n := hnext.symm.trans h.next
          exact ⟨_, nft, h⟩
      | _ => cases hact

theorem Unmarked.minted (hr : Reachable s) (hstep : Step s act s')
    (hact : act.mintsInto = some c) (hx : Unmarked s x) : Unmarked s' x := by
  have hkeep : ∀ k : Cell, ¬ (k = .nextNftId c ∨ ∃ n, k = .owner (c, n)) →
      s'.indexer.look k = s.indexer.look k := fun k hk =>
    hstep.look_eq hr fun htouch => hk (Act.touches_of_mints hact htouch)
  exact {
    lock := (hkeep (.lock x) (by simp)).trans hx.lock
    listedNfts := (hkeep (.listing x) (by simp)).trans hx.listedNfts
    offers := fun a => (hkeep (.offer x a) (by simp)).trans (hx.offers a)
    properties := fun key => (hkeep (.property _) (by simp)).trans (hx.properties key)
    priorities := fun r => (hkeep (.priority x r) (by simp)).trans (hx.priorities r)
    equippings := fun q => (hkeep (.slot (x, q)) (by simp)).trans (hx.equippings q) }

theorem newborn (hr : Reachable s) (hstep : Step s (Act.signed o call) s')
    (hmints : (Act.signed o call).Mints s x) : Newborn call x s' := by
  have hno := noNft hr (x := x) (hmints.2 ▸ UInt32.le_refl _)
  have hturn := hstep.turnover hr
  obtain ⟨a, nft, hminted⟩ := hstep.minted hmints
  have hgives : ∀ r body, (Act.signed o call).Gives s (x, r) body ↔
      (call.brings.getD [])[r.toNat]? = some body := by
    intro r body
    constructor
    · rintro (⟨hadds, -⟩ | ⟨-, hbrings⟩)
      · simp [Act.adds_of_mints hmints.1] at hadds
      · exact hbrings
    · exact fun hbrings => .inr ⟨hmints, hbrings⟩
  have hbodies : ∀ r body, s'.bodies (x, r) = some body ↔
      (call.brings.getD [])[r.toNat]? = some body := by
    intro r body
    have hnone : s.bodies (x, r) = none := congrArg (Option.map _) (hno.resources r)
    rw [hturn.bodies, hgives, hnone]
    simp
  refine { Unmarked.minted hr hstep hmints.1 hno.toUnmarked with
    nfts := ⟨nft, by rw [hminted.nfts, StorageMap.insert_self], hminted.equipped⟩
    bodies := hbodies
    bases := fun b => ?_
    slots := fun r q => ?_ }
  · rw [hturn.bases, hno.equippableBases]
    simp only [hgives, hbodies, Option.isSome_none, Bool.false_eq_true, false_or]
  · rw [hturn.slots, hno.equippableSlots]
    simp only [hgives, hbodies, Option.isSome_none, Bool.false_eq_true, false_or]

/-- **Clean slates.** In every reachable state there is nothing under a
number that has not been given, and a new NFT has nothing but what its
mint gives it. -/
theorem clean_slates (hr : Reachable s) :
    (∀ x : NftKey, s.nextNftId x.1 ≤ x.2 → NoNft s x) ∧
    (∀ c, s.collectionIndex ≤ c → NoCollection s c) ∧
    (∀ b, s.nextBaseId ≤ b → NoBase s b) ∧
    ∀ o call s' x, Step s (.signed o call) s' → (Act.signed o call).Mints s x →
      Newborn call x s' :=
  ⟨fun _ => noNft hr, fun _ => noCollection hr, fun _ => noBase hr,
    fun _ _ _ _ => newborn hr⟩

namespace Mock

/-- Alice mints an NFT with a resource. -/
def mintWithResource : Extrinsic :=
  (alice, .mintNft none 0 none none [] true (some [.basic ⟨none, none, none, none⟩]))

theorem newborn_mintWithResource : Newborn mintWithResource.2 (0, 0)
    (apply mintWithResource (replay [(alice, newCollection)])) :=
  (clean_slates (reachable_replay (by decide +kernel))).2.2.2 alice _ _ _
    (step_apply (e := mintWithResource) (by decide +kernel)) ⟨rfl, by decide +kernel⟩

end Mock

end Rmrk
