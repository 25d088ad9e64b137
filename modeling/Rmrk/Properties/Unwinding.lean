import Rmrk.Properties.Funds
import Rmrk.Properties.Slots
/-!
# What can be taken back

An offer is withdrawn, a listing taken down, a slot emptied by the call
that has filled it. Each takes back what was done, to the storage there
was before; so any number of them do, the latest first. Of the other
pallets' storage it is what can be read of it that comes back.
-/

namespace Rmrk

open Effect

variable {W : Type} [Config W] {s s' t t' u : State W} {act : Act W}
variable {h : List (State W × Act W)} {x item equipper : NftKey} {o : AccountId}
variable {r : ResourceId} {b : BaseId} {sl : SlotId} {v : Balance} {e : Option BlockNumber}

/-! ## The property -/

/-- **`t` passes for `s`**: our storage is the same, and nobody can tell
that the others' is not. -/
structure PassesFor (s t : State W) : Prop where
  frame : t = { s with ext := t.ext }
  owner : t.owner = s.owner
  free : Currency.free t.ext = Currency.free s.ext
  reserved : Currency.reserved t.ext = Currency.reserved s.ext

/-- **The call that takes a call back.** -/
def Act.inverse : Act W → Act W
  | .signed o (.makeOffer x ..) => .signed o (.withdrawOffer x)
  | .signed o (.list x ..) => .signed o (.unlist x)
  | act => act

/-- **What leaves nothing behind once it is taken back**: an offer, a first
listing, and a slot that was empty. -/
def Reversible (s : State W) : Act W → Prop
  | .signed _ (.makeOffer ..) => True
  | .signed _ (.list x ..) => s.lock x = false ∧ s.listedNfts x = none
  | .signed _ (.equip _ equipper _ b sl) => s.equippings (equipper, b, sl) = none
  | _ => False

theorem PassesFor.refl (s : State W) : PassesFor s s := ⟨rfl, rfl, rfl, rfl⟩

theorem PassesFor.trans (h : PassesFor s t) (h' : PassesFor t u) : PassesFor s u where
  frame := by rw [h'.frame, h.frame]
  owner := h'.owner.trans h.owner
  free := h'.free.trans h.free
  reserved := h'.reserved.trans h.reserved

/-! ## Slots -/

/-- **A slot that its equipper's root owner can empty**, who is that of the
item as well. -/
structure Emptiable (s : State W) (o : AccountId) (item equipper : NftKey) (b : BaseId)
    (sl : SlotId) : Prop where
  item_unlocked : s.lock item = false
  equipper_unlocked : s.lock equipper = false
  filled : (s.equippings (equipper, b, sl)).isSome = true
  record : (s.nfts item).isSome = true
  root : RootOwner s item o
  equipper_root : RootOwner s equipper o

namespace Equip

/-- Who can empty a slot empties it by the call that filled it. -/
theorem equip_empties (h : Emptiable s o item equipper b sl) :
    equip o item equipper r b sl s = .ok () (wired s item (equipper, b, sl) none) := by
  obtain ⟨root, hroot⟩ := h.root
  obtain ⟨root', hroot'⟩ := h.equipper_root
  have hitemFree : Core.isLocked s item = false := h.item_unlocked
  have hequipperFree : Core.isLocked s equipper = false := h.equipper_unlocked
  have hitem : lookupRootOwner item s = .ok (o, root) s := lookupRootOwner_ok.2 ⟨hroot, rfl⟩
  have hequipper : lookupRootOwner equipper s = .ok (o, root') s :=
    lookupRootOwner_ok.2 ⟨hroot', rfl⟩
  have hthere : ¬ ((s.nfts item).isSome = false ∧
      (s.equippings (equipper, b, sl)).isSome = true) := by simp [h.record]
  rw [equip, doEquip]
  simp only [bind_assoc, get_bind, ensure_of hitemFree, ensure_of hequipperFree, pure_bind,
    if_neg hthere]
  rw [bind_of_ok hitem, bind_of_ok hequipper, if_pos ⟨h.filled, .inl rfl⟩]
  rfl

/-- What fills a slot, and what has been checked. -/
theorem equip_fills (h : equip o item equipper r b sl s = .ok () s')
    (hempty : s.equippings (equipper, b, sl) = none) :
    s.lock item = false ∧ s.lock equipper = false ∧ Checked s item equipper r b sl ∧
      RootOwner s item o ∧ RootOwner s equipper o ∧
      s' = wired s item (equipper, b, sl) (some r) := by
  rw [equip, bind_ok] at h
  obtain ⟨filled, _, hequip, h'⟩ := h
  obtain ⟨-, rfl⟩ := pure_ok.1 h'
  have hlock : s.lock equipper = false := by
    simp only [doEquip, get_bind_ok, ensure_bind_ok] at hequip
    exact hequip.2.1
  obtain ⟨hitem, ⟨-, -, hfilled, -⟩ | ⟨-, hs', -, hchecked, hroot, hroot'⟩⟩ := doEquip_writes hequip
  · simp [hempty] at hfilled
  · exact ⟨hitem, hlock, hchecked, hroot, hroot', hs'⟩

omit [Config W] in
/-- A slot that has been filled and emptied is as it was, and so is the
item. -/
theorem wired_wired {nft : NftInfo} (hempty : s.equippings (equipper, b, sl) = none)
    (hnft : s.nfts item = some nft) (hequipped : nft.equipped = false) :
    wired (wired s item (equipper, b, sl) (some r)) item (equipper, b, sl) none = s := by
  have hslots : Function.update (Function.update s.equippings (equipper, b, sl) (some r))
      (equipper, b, sl) none = s.equippings := by
    rw [Function.update_idem, ← hempty, Function.update_eq_self]
  have hrecords : (s.nfts.mutate item fun nft => { nft with equipped := true }).mutate item
      (fun nft => { nft with equipped := false }) = s.nfts := by
    funext y
    by_cases hy : y = item
    · subst hy
      simp only [StorageMap.mutate_self, hnft, Option.map_some]
      rw [← hequipped]
    · simp only [StorageMap.mutate_of_ne hy]
  simp only [wired, Option.isSome_some, Option.isSome_none, hslots, hrecords]

end Equip

/-! ## One step back -/

/-- **`t` is where `act` is taken back to**, from `s`. -/
def Back (s : State W) : Act W → State W → Prop
  | .signed o (.makeOffer x ..), t => dispatch o (.withdrawOffer x) s = .ok () t
  | .signed o (.list x ..), t => s.owner x = some o ∧ (s.listedNfts x).isSome = true ∧
      t = { s with
        lock := Function.update s.lock x false
        listedNfts := s.listedNfts.remove x }
  | .signed o (.equip item equipper _ b sl), t =>
      Emptiable s o item equipper b sl ∧ t = Equip.wired s item (equipper, b, sl) none
  | _, _ => False

theorem Market.unlist_returns (howner : s.owner x = some o)
    (hlisted : (s.listedNfts x).isSome = true) :
    unlist o x s = .ok () { s with
      lock := Function.update s.lock x false
      listedNfts := s.listedNfts.remove x } := by
  simp only [unlist, transactional_ok, Core.setLock, get_bind_ok, okOr_bind_ok, ensure_bind_ok,
    update_bind_ok, update_ok]
  exact ⟨hlisted, o, howner, rfl, trivial⟩

/-- It is a step, by the inverse. -/
theorem Back.step (h : Back s act t) : Step s act.inverse t := by
  cases act with
  | between => exact h.elim
  | signed o call =>
      cases call with
      | makeOffer => exact h
      | list =>
          obtain ⟨howner, hlisted, rfl⟩ := h
          exact Market.unlist_returns howner hlisted
      | equip =>
          obtain ⟨hempties, rfl⟩ := h
          exact Equip.equip_empties hempties
      | _ => exact h.elim

/-- The same in a state that passes for the one it is in. -/
theorem Back.passesFor (hst : PassesFor s t) (h : Back s act s') :
    ∃ t', Back t act t' ∧ PassesFor s' t' := by
  obtain ⟨howner, hfree, hreserved⟩ := And.intro hst.owner (And.intro hst.free hst.reserved)
  obtain ⟨w, rfl⟩ : ∃ w, t = { s with ext := w } := ⟨t.ext, hst.frame⟩
  cases act with
  | between => exact h.elim
  | signed o call =>
      cases call with
      | makeOffer x =>
          obtain ⟨offer, owner, hoffer, hx, hby, rfl⟩ := Market.withdrawOffer_iff.1 h
          refine ⟨_, Market.withdrawOffer_iff.2 ⟨offer, owner, hoffer, ?_, hby, rfl⟩, rfl, ?_, ?_,
            ?_⟩
          · rw [howner, hx]
          · exact Config.owner_unreserve.trans (howner.trans Config.owner_unreserve.symm)
          · change Currency.free (Currency.unreserve w _ _) =
              Currency.free (Currency.unreserve _ _ _)
            rw [Currency.free_unreserve, Currency.free_unreserve, hfree, hreserved]
          · change Currency.reserved (Currency.unreserve w _ _) =
              Currency.reserved (Currency.unreserve _ _ _)
            rw [Currency.reserved_unreserve, Currency.reserved_unreserve, hreserved]
      | list x =>
          obtain ⟨hx, hlisted, rfl⟩ := h
          exact ⟨_, ⟨by rw [howner, hx], hlisted, rfl⟩, rfl, howner, hfree, hreserved⟩
      | equip =>
          obtain ⟨hempties, rfl⟩ := h
          refine ⟨_, ⟨?_, rfl⟩, rfl, howner, hfree, hreserved⟩
          exact ⟨hempties.item_unlocked, hempties.equipper_unlocked, hempties.filled,
            hempties.record, (rootOwner_congr howner).2 hempties.root,
            (rootOwner_congr howner).2 hempties.equipper_root⟩
      | _ => exact h.elim

/-- What has been reserved is released. -/
theorem unreserve_reserve {w : W} (hw : Currency.reserve s.ext o v = .ok w) :
    Currency.free (Currency.unreserve w o v) = Currency.free s.ext ∧
      Currency.reserved (Currency.unreserve w o v) = Currency.reserved s.ext := by
  obtain ⟨hfree, hothers⟩ := Currency.free_reserve hw
  have hreserved := Currency.reserved_reserve hw
  have hall : v ≤ Currency.reserved w o := by
    rw [hreserved, Function.update_self]
    exact Nat.le_add_left _ _
  refine ⟨funext fun c => ?_, funext fun c => ?_⟩
  · rw [Currency.free_unreserve, Nat.min_eq_left hall, hfree]
    by_cases hc : c = o
    · rw [hc, Function.update_self]
    · rw [Function.update_of_ne hc, hothers c hc]
  · rw [Currency.reserved_unreserve, hreserved, Function.update_self, Nat.add_sub_cancel]
    by_cases hc : c = o
    · rw [hc, Function.update_self]
    · rw [Function.update_of_ne hc, Function.update_of_ne hc]

/-- **What can be taken back is**, to a state that passes for the one it was
done in. -/
theorem Step.back (hact : Reversible s act) (hstep : Step s act s') :
    ∃ t, Back s' act t ∧ PassesFor s t := by
  cases act with
  | between => exact hact.elim
  | signed o call =>
      have h : dispatch o call s = .ok () s' := hstep
      cases call with
      | makeOffer x v e =>
          obtain ⟨howner, hnone, w, hw, rfl⟩ := Market.makeOffer_reserves h
          obtain ⟨owner, hx⟩ := Option.isSome_iff_exists.1 howner
          obtain ⟨hfree, hreserved⟩ := unreserve_reserve hw
          have hkept : Uniques.owner w = s.owner := Config.owner_reserve hw
          refine ⟨_, Market.withdrawOffer_iff.2 ⟨{ maker := o, amount := v, expires := e }, owner,
            StorageMap.insert_self, (congrFun hkept x).trans hx, .inr rfl, rfl⟩, ?_, ?_, hfree,
            hreserved⟩
          · have hoffers : (s.offers.insert (x, o) { maker := o, amount := v, expires := e }).remove
                (x, o) = s.offers := by
              rw [StorageMap.insert, StorageMap.remove, Function.update_idem, ← hnone,
                Function.update_eq_self]
            simp only [hoffers]
          · exact Config.owner_unreserve.trans hkept
      | list x v e =>
          obtain ⟨hlock, hnone⟩ := hact
          obtain ⟨howner, -, -, rfl⟩ := Market.list_writes h
          have hlocks : Function.update (Function.update s.lock x true) x false = s.lock := by
            rw [Function.update_idem, ← hlock, Function.update_eq_self]
          have hlistings :
              (s.listedNfts.insert x { listedBy := o, amount := v, expires := e }).remove x =
                s.listedNfts := by
            rw [StorageMap.insert, StorageMap.remove, Function.update_idem, ← hnone,
              Function.update_eq_self]
          refine ⟨_, ⟨howner, by simp, rfl⟩, ?_, rfl, rfl, rfl⟩
          simp only [hlocks, hlistings]
      | equip item equipper r b sl =>
          obtain ⟨hitem, hequipper, hchecked, hroot, hroot', rfl⟩ := Equip.equip_fills h hact
          obtain ⟨nft, hnft, hequipped, -⟩ := hchecked.record
          refine ⟨_, ⟨?_, rfl⟩, ?_⟩
          · exact {
              item_unlocked := hitem
              equipper_unlocked := hequipper
              filled := by simp [Equip.wired]
              record := by simp [Equip.wired, hnft]
              root := (rootOwner_congr rfl).2 hroot
              equipper_root := (rootOwner_congr rfl).2 hroot' }
          · rw [Equip.wired_wired hact hnft hequipped]
            exact .refl s
      | _ => exact hact.elim

/-! ## Any number of steps back -/

/-- **Unwinding.** Offers, first listings and equipped slots, any number of
them in any order, are taken back by their inverses, the latest first:
each goes through, and where they end passes for where it all began. -/
theorem unwound (hr : Run (· = s) Step h s') (hall : ∀ e ∈ h, Reversible e.1 e.2) :
    ∃ k t, Run (· = s') Step k t ∧ labels k = ((labels h).map Act.inverse).reverse ∧
      PassesFor s t := by
  obtain ⟨s₀, k, t, rfl, hk, hlabels, ht⟩ :=
    hr.unwind (fun s act t (hback : Back s act t) => hback.step) PassesFor.refl
      (fun _ _ _ => PassesFor.trans) (fun _ _ _ => Step.back) (fun _ _ _ _ => Back.passesFor) hall
  exact ⟨k, t, hk, hlabels, ht⟩

namespace Mock

/-- Alice lists the equipped NFT, and Bob makes an offer on it. -/
def wornAndOffered : List Extrinsic :=
  (bob, .makeOffer (0, 0) 60 none) :: (alice, .list (0, 0) 100 none) :: equipped

/-- **All three are taken back**: the offer, the listing, and then the
equipped child. -/
theorem unwound_wornAndOffered : ∃ k t, Run (· = replay wornAndOffered) Step k t ∧
    labels k = [.signed alice (.equip (0, 1) (0, 0) 0 0 1), .signed alice (.unlist (0, 0)),
      .signed bob (.withdrawOffer (0, 0))] ∧ PassesFor (replay fitting) t := by
  have hequip : Step (replay fitting) (.signed alice (.equip (0, 1) (0, 0) 0 0 1))
      (replay equipped) :=
    step_apply (e := (alice, .equip (0, 1) (0, 0) 0 0 1)) (by decide +kernel)
  have hlist : Step (replay equipped) (.signed alice (.list (0, 0) 100 none))
      (replay (wornAndOffered.drop 1)) :=
    step_apply (e := (alice, .list (0, 0) 100 none)) (by decide +kernel)
  have hoffer : Step (replay (wornAndOffered.drop 1)) (.signed bob (.makeOffer (0, 0) 60 none))
      (replay wornAndOffered) :=
    step_apply (e := (bob, .makeOffer (0, 0) 60 none)) (by decide +kernel)
  have hempty : (replay fitting).equippings ((0, 0), 0, 1) = none := by decide +kernel
  refine unwound (.step (.step (.step (.start rfl) hequip) hlist) hoffer) ?_
  simp only [List.forall_mem_cons, List.not_mem_nil, false_imp_iff, implies_true, and_true]
  exact ⟨trivial, ⟨by decide +kernel, by decide +kernel⟩, hempty⟩

end Mock

end Rmrk
