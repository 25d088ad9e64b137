import Rmrk.Helpers.Issued
import Rmrk.Mock.Replay
/-!
# Equipped items and their slots

A filled slot holds the resource it was filled with, and not the item; an
item that is equipped does not say where. The two go together as long as
who empties a slot names the item that fills it, which `equip` leaves to
the caller, and as long as what is equipped stays with its equipper, which
`accept_nft` does not see to.
-/

namespace Rmrk

variable {W : Type} [Config W] {s s' : State W} {act : Act W} {h : List (State W × Act W)}
variable {x y : NftKey} {a o : AccountId}

/-! ## The property -/

/-- A slot of an equipper, by base and slot id. -/
abbrev Slot := NftKey × BaseId × SlotId

/-- An NFT whose flag is up. -/
def Equipped (s : State W) (x : NftKey) : Prop :=
  ∃ nft, s.nfts x = some nft ∧ nft.equipped = true

/-- **`x` fits what fills the slot `k`**, and is the equipper's. -/
def Fits (s : State W) (x : NftKey) (k : Slot) : Prop :=
  ∃ r, s.equippings k = some r ∧ s.owner x = some (nftToAccountId k.1) ∧
    (s.equippableSlots (x, r, k.2)).isSome = true

/-- **Every equipped NFT has a slot of its own.** -/
def Fitted (s : State W) : Prop :=
  ∃ f : {x // Equipped s x} → Slot,
    Function.Injective f ∧ ∀ x : {x // Equipped s x}, Fits s x (f x)

/-! ## Seats -/

/-- The seat of an item: the slot it filled last. -/
def seat : List (State W × Act W) → NftKey → Option Slot
  | [], _ => none
  | (s, .signed _ (.equip item equipper _ b sl)) :: h, x =>
      if x = item ∧ s.equippings (equipper, b, sl) = none then some (equipper, b, sl) else seat h x
  | _ :: h, x => seat h x

/-- **What is equipped keeps its seat.** Who empties a slot names the item
that sits there, unless that is no longer equipped; who fills one names an
item that `pallet_uniques` has for the equipper's; and what is equipped is
accepted for the owner it has. -/
def KeepsSeats (h : List (State W × Act W)) (s : State W) : Act W → Prop
  | .signed _ (.equip item equipper _ b sl) =>
      ((s.equippings (equipper, b, sl)).isSome = true →
        ∀ y, y ≠ item → Equipped s y → seat h y ≠ some (equipper, b, sl)) ∧
      (s.equippings (equipper, b, sl) = none → s.owner item = some (nftToAccountId equipper))
  | .signed _ (.acceptNft x newOwner) => Equipped s x → s.owner x = some newOwner.account
  | _ => True

/-- What is equipped fits its seat, and sits there alone. -/
structure Seated (h : List (State W × Act W)) (s : State W) : Prop where
  fits : ∀ x, Equipped s x → ∃ k, seat h x = some k ∧ Fits s x k
  alone : ∀ x y k, Equipped s x → Equipped s y → seat h x = some k → seat h y = some k → x = y

/-- **Seats are slots of one's own.** -/
theorem Seated.fitted (hs : Seated h s) : Fitted s := by
  choose f hseat hfits using fun x : {x // Equipped s x} => hs.fits x x.2
  refine ⟨f, fun x y hxy => Subtype.ext ?_, hfits⟩
  exact hs.alone x y (f x) x.2 y.2 (hseat x) (hxy ▸ hseat y)

theorem Seated.congr (hs : Seated h s) (hseat : ∀ x, seat ((s, act) :: h) x = seat h x)
    (hslots : SameSlots s s')
    (hx : ∀ x, Equipped s' x → Equipped s x ∧ s'.owner x = s.owner x) :
    Seated ((s, act) :: h) s' where
  fits x he := by
    obtain ⟨he, howner⟩ := hx x he
    obtain ⟨k, hk, r, hr, ho, hfits⟩ := hs.fits x he
    exact ⟨k, (hseat x).trans hk, r, hslots.equippings ▸ hr, howner.trans ho, hslots.fits _ hfits⟩
  alone x y k hx' hy' hxk hyk :=
    hs.alone x y k (hx x hx').1 (hx y hy').1 (hseat x ▸ hxk) (hseat y ▸ hyk)

theorem seat_of_still (hstill : act.still = true) : seat ((s, act) :: h) x = seat h x := by
  cases act with
  | between => rfl
  | signed o c => cases c <;> first | rfl | simp [Act.still, Call.still] at hstill

/-! ## One step -/

/-- What is put on record unequipped is the only one that may have changed
hands. -/
theorem equipped_of_insert {nft : NftInfo} {c : Option AccountId} (hnft : nft.equipped = false)
    (hnfts : s'.nfts = s.nfts.insert x nft) (howner : s'.owner = Function.update s.owner x c)
    (y : NftKey) (hy : Equipped s' y) : Equipped s y ∧ s'.owner y = s.owner y := by
  obtain ⟨nft', hnft', he⟩ := hy
  rw [hnfts] at hnft'
  by_cases hyx : y = x
  · subst hyx
    rw [StorageMap.insert_self, Option.some.injEq] at hnft'
    rw [← hnft', hnft] at he
    exact absurd he (by simp)
  · rw [StorageMap.insert_of_ne hyx] at hnft'
    exact ⟨⟨nft', hnft', he⟩, by rw [howner, Function.update_of_ne hyx]⟩

theorem Sent.unequipped {old new : AccountId} {newOwner : AccountIdOrCollectionNftTuple}
    {nft nft' : NftInfo} (h' : Sent o x newOwner old new nft nft' s s') :
    nft'.equipped = false := by
  by_cases hap : ApprovalRequired s o newOwner
  · rw [h'.unapproved hap]; exact h'.equipped
  · rw [h'.approved hap]; exact h'.equipped

theorem equipped_of_destroyed {q : Option NftKey} (h' : Destroyed x q s s')
    (howner : ∀ z, z ≠ x → s'.owner z = s.owner z) (y : NftKey) (hy : Equipped s' y) :
    Equipped s y ∧ s'.owner y = s.owner y := by
  obtain ⟨nft, hnft, he⟩ := hy
  by_cases hb : Below s x y
  · simp [h'.nfts_below y hb] at hnft
  · rw [h'.nfts_else y hb] at hnft
    exact ⟨⟨nft, hnft, he⟩, howner y (by rintro rfl; exact hb .refl)⟩

section Wired

variable {item : NftKey} {k k' : Slot} {r : Option ResourceId}

theorem Wired.equipped_of_ne (h' : Wired item k r s s') (hx : x ≠ item) (he : Equipped s' x) :
    Equipped s x := by
  obtain ⟨nft, hnft, he⟩ := he
  rw [h'.nfts, StorageMap.mutate_of_ne hx] at hnft
  exact ⟨nft, hnft, he⟩

theorem Wired.ne_of_equipped (h' : Wired item k none s s') (he : Equipped s' x) : x ≠ item := by
  rintro rfl
  obtain ⟨nft, hnft, he⟩ := he
  rw [h'.nfts, StorageMap.mutate_self, Option.map_eq_some_iff] at hnft
  obtain ⟨_, -, rfl⟩ := hnft
  simp at he

theorem Wired.fits (h' : Wired item k r s s') (hk : k' ≠ k) (hx : Fits s x k') : Fits s' x k' := by
  obtain ⟨r', hr', ho, hfits⟩ := hx
  refine ⟨r', ?_, by rw [h'.owner, ho], by rw [h'.equippableSlots, hfits]⟩
  rw [h'.equippings, Function.update_of_ne hk, hr']

end Wired

/-- Emptying the slot of an item takes no other's. -/
theorem Seated.unequip {item equipper : NftKey} {r : ResourceId} {b : BaseId} {sl : SlotId}
    (hs : Seated h s) (hfilled : (s.equippings (equipper, b, sl)).isSome = true)
    (hc : ∀ y, y ≠ item → Equipped s y → seat h y ≠ some (equipper, b, sl))
    (h' : Wired item (equipper, b, sl) none s s') :
    Seated ((s, .signed o (.equip item equipper r b sl)) :: h) s' := by
  have hseat : ∀ x, seat ((s, .signed o (.equip item equipper r b sl)) :: h) x = seat h x :=
    fun x => if_neg fun hempty => by simp [hempty.2] at hfilled
  have hold : ∀ x, Equipped s' x → x ≠ item ∧ Equipped s x := fun x he =>
    ⟨h'.ne_of_equipped he, h'.equipped_of_ne (h'.ne_of_equipped he) he⟩
  constructor
  · intro x he
    obtain ⟨hx, he⟩ := hold x he
    obtain ⟨k, hk, hfits⟩ := hs.fits x he
    refine ⟨k, (hseat x).trans hk, h'.fits ?_ hfits⟩
    rintro rfl
    exact hc x hx he hk
  · intro x y k hx hy hxk hyk
    rw [hseat] at hxk hyk
    exact hs.alone x y k (hold x hx).2 (hold y hy).2 hxk hyk

/-- Nobody sits in a slot that is filled. -/
theorem Seated.equip {item equipper : NftKey} {r : ResourceId} {b : BaseId} {sl : SlotId}
    (hs : Seated h s) (hempty : s.equippings (equipper, b, sl) = none)
    (howner : s.owner item = some (nftToAccountId equipper))
    (hfits : (s.equippableSlots (item, r, b, sl)).isSome = true)
    (h' : Wired item (equipper, b, sl) (some r) s s') :
    Seated ((s, .signed o (.equip item equipper r b sl)) :: h) s' := by
  have hitem : seat ((s, .signed o (.equip item equipper r b sl)) :: h) item =
      some (equipper, b, sl) := if_pos ⟨rfl, hempty⟩
  have hseat : ∀ x, x ≠ item →
      seat ((s, .signed o (.equip item equipper r b sl)) :: h) x = seat h x :=
    fun x hx => if_neg fun hxi => hx hxi.1
  -- an item that had a seat before has another
  have hold : ∀ x, x ≠ item → Equipped s' x →
      ∃ k, k ≠ (equipper, b, sl) ∧ seat h x = some k ∧ Fits s x k := by
    intro x hx he
    obtain ⟨k, hk, hfits⟩ := hs.fits x (h'.equipped_of_ne hx he)
    refine ⟨k, ?_, hk, hfits⟩
    rintro rfl
    obtain ⟨r', hr', -⟩ := hfits
    simp [hempty] at hr'
  constructor
  · intro x he
    by_cases hx : x = item
    · subst hx
      refine ⟨_, hitem, r, by simp [h'.equippings], by rw [h'.owner, howner], ?_⟩
      rw [h'.equippableSlots, hfits]
    · obtain ⟨k, hk, hxk, hfits⟩ := hold x hx he
      exact ⟨k, (hseat x hx).trans hxk, h'.fits hk hfits⟩
  · intro x y k hx hy hxk hyk
    by_cases hxi : x = item <;> by_cases hyi : y = item
    · rw [hxi, hyi]
    · obtain ⟨k', hk', hyk', -⟩ := hold y hyi hy
      rw [hxi, hitem, Option.some.injEq] at hxk
      rw [hseat y hyi, hyk', Option.some.injEq] at hyk
      exact absurd (hyk.trans hxk.symm) hk'
    · obtain ⟨k', hk', hxk', -⟩ := hold x hxi hx
      rw [hyi, hitem, Option.some.injEq] at hyk
      rw [hseat x hxi, hxk', Option.some.injEq] at hxk
      exact absurd (hxk.trans hyk.symm) hk'
    · rw [hseat x hxi] at hxk
      rw [hseat y hyi] at hyk
      exact hs.alone x y k (h'.equipped_of_ne hxi hx) (h'.equipped_of_ne hyi hy) hxk hyk

/-- **One step under the condition keeps the seats.** -/
theorem seated_step (hs : Seated h s) (hc : KeepsSeats h s act) (hstep : Step s act s') :
    Seated ((s, act) :: h) s' := by
  have hsame : act.still = true → Quiet s s' → Seated ((s, act) :: h) s' := fun hstill hq =>
    hs.congr (fun _ => seat_of_still hstill) hq.toSameSlots fun x he =>
      ⟨by simpa only [Equipped, hq.nfts] using he, by rw [hq.owner]⟩
  cases hstep.outcome with
  | silent hstill h => exact hsame hstill h.toQuiet
  | noted hstill h => exact hsame hstill h.toQuiet
  | mintNft _ _ h =>
      exact hs.congr (fun _ => rfl) h.toSameSlots (equipped_of_insert h.equipped h.nfts h.owner)
  | mintNftDirectlyToNft _ _ _ h =>
      exact hs.congr (fun _ => rfl) h.toSameSlots (equipped_of_insert h.equipped h.nfts h.owner)
  | send h =>
      exact hs.congr (fun _ => rfl) h.toSameSlots (equipped_of_insert h.unequipped h.nfts h.owner)
  | @acceptNft o x newOwner new nft h =>
      refine hs.congr (fun _ => rfl) h.toSameSlots fun y hy => ?_
      obtain ⟨nft', hnft', he⟩ := hy
      by_cases hyx : y = x
      · subst hyx
        rw [h.nfts, StorageMap.insert_self, Option.some.injEq] at hnft'
        subst hnft'
        have hy : Equipped s y := ⟨nft, h.nfts_eq, he⟩
        refine ⟨hy, ?_⟩
        rw [h.owner, Function.update_self, hc hy, h.target.account]
      · rw [h.nfts, StorageMap.insert_of_ne hyx] at hnft'
        exact ⟨⟨nft', hnft', he⟩, by rw [h.owner, Function.update_of_ne hyx]⟩
  | burnNft _ h howner =>
      exact hs.congr (fun _ => rfl) h.toSameSlots (equipped_of_destroyed h fun z hz => by
        rw [howner, Function.update_of_ne hz])
  | rejectNft _ _ h howner =>
      exact hs.congr (fun _ => rfl) h.toSameSlots (equipped_of_destroyed h fun z _ => by
        rw [howner])
  | unequip h hfilled => exact hs.unequip hfilled (hc.1 hfilled) h
  | equip h hempty _ _ _ hfits => exact hs.equip hempty (hc.2 hempty) hfits h
  | list _ _ _ h =>
      exact hs.congr (fun _ => rfl) h.toSameSlots fun x he =>
        ⟨by simpa only [Equipped, h.nfts] using he, by rw [h.owner]⟩
  | unlist _ h =>
      exact hs.congr (fun _ => rfl) h.toSameSlots fun x he =>
        ⟨by simpa only [Equipped, h.nfts] using he, by rw [h.owner]⟩
  | buy _ _ _ h =>
      exact hs.congr (fun _ => rfl) h.toSameSlots (equipped_of_insert h.unequipped h.nfts h.owner)
  | acceptOffer _ h =>
      exact hs.congr (fun _ => rfl) h.toSameSlots (equipped_of_insert h.unequipped h.nfts h.owner)

/-- **Slots over a run.** At the end of a run whose steps all keep the
seats every equipped NFT has a slot of its own. -/
theorem fitted_run (hr : IsRun h s) (hm : Run.Meets KeepsSeats h) : Fitted s := by
  refine (Run.invariant_of_meets (P := Seated) ?_ ?_ hr hm).fitted
  · rintro _ ⟨w, -, -, rfl⟩
    constructor
    · rintro x ⟨nft, hnft, -⟩
      simp [genesis] at hnft
    · rintro x y k ⟨nft, hnft, -⟩
      simp [genesis] at hnft
  · exact fun _ _ _ _ _ hP hC hstep => seated_step hP hC hstep

namespace Mock

/-- The parts of an NFT made for the slot 1 of the base 0. -/
def composable : ComposableResource := ⟨[], 0, none, none, none, none, none⟩

/-- A resource for that slot. -/
def wearable : SlotResource := ⟨0, none, none, 1, none, none⟩

/-- Of two NFTs of hers Alice sends one into the other, and makes them fit
at the slot 1 of a base. -/
def fitting : List Extrinsic :=
  [(alice, .createBase [] [] [.slotPart ⟨1, .all, none, 0⟩]),
    (alice, .addSlotResource (0, 1) wearable), (alice, .addComposableResource (0, 0) composable),
    (alice, .send (0, 1) (.collectionAndNftTuple 0 0)),
    (alice, mintTo alice), (alice, mintTo alice), (alice, newCollection)]

/-- She equips the one with the other. -/
def equipped : List Extrinsic := (alice, .equip (0, 1) (0, 0) 0 0 1) :: fitting

/-- She accepts the equipped NFT for Bob. -/
def equippedAway : List Extrinsic := (alice, .acceptNft (0, 1) (.accountId bob)) :: equipped

/-- **Bob's NFT is equipped, and nobody's.** -/
theorem not_fitted_of_reachable : ¬ ∀ s : State Storage, Reachable s → Fitted s := by
  intro hall
  obtain ⟨f, -, hf⟩ := hall (replay equippedAway) (reachable_replay (by decide +kernel))
  have hflag : ((replay equippedAway).nfts (0, 1)).map NftInfo.equipped = some true := by
    decide +kernel
  have hbob : (replay equippedAway).owner (0, 1) = some bob := by decide +kernel
  have hord : decodeNftAccountId bob = none := by decide +kernel
  obtain ⟨-, -, howner, -⟩ := hf ⟨((0, 1) : NftKey), Option.map_eq_some_iff.1 hflag⟩
  rw [hbob, Option.some.injEq] at howner
  rw [howner, decodeNftAccountId_nftToAccountId] at hord
  simp at hord

theorem fitted_equipped : Fitted (replay equipped) := by
  have hempty : (replay fitting).equippings ((0, 0), 0, 1) = none := by decide +kernel
  have hfitting : Run.Meets KeepsSeats (history fitting) := by
    unfold fitting
    exact ⟨trivial, trivial, trivial, trivial, trivial, trivial, trivial, trivial⟩
  refine fitted_run (h := history equipped) (isRun_replay (by decide +kernel))
    (And.intro ⟨fun hfilled => ?_, fun _ => by decide +kernel⟩ hfitting)
  simp [hempty] at hfilled

end Mock

end Rmrk
