import Rmrk.Properties.Composition
import Rmrk.Properties.Refunds
import Rmrk.Properties.Reroot
/-!
# Lost for good

What hangs from an NFT that is not there, or from itself, has no root
owner: nobody can move it, burn it or list it. While that NFT is yet to be
minted it may come back. Else it is lost, and stays so, and so is what was
offered for an NFT that has gone. Which steps lose an NFT can be said.
-/

namespace Rmrk

open Relation Pointer

variable {W : Type} [Config W] {s s' : State W} {act : Act W} {h : List (State W × Act W)}
variable {x y z p : NftKey} {o b : AccountId} {c : Option AccountId}

/-- **An NFT is lost**: it has no root owner, and what it hangs from has
been issued already. -/
structure Lost (s : State W) (y : NftKey) : Prop where
  rootless : ∀ a, ¬ RootOwner s y a
  issued : ∀ z, Reaches s.parent y z → s.owner z = none → z.2 < s.nextNftId z.1

/-- **A step loses `y`**: it burns an NFT that `y` is in, or `y` itself, or
puts one into an NFT that is lost, or that is in it. -/
def Act.Loses (s : State W) (act : Act W) (y : NftKey) : Prop :=
  ∃ x, Reaches s.parent y x ∧ ((∃ o k, act = .signed o (.burnNft x k)) ∨
    ∃ p, act.move s = .put x (.under p) ∧ (Lost s p ∨ Reaches s.parent p x))

/-- The calls that want the root owner of `y`: of what they are called on,
and of the NFT they send to. -/
def Call.Wants (y : NftKey) : Call W → Prop
  | .burnNft x _ | .rejectNft x | .acceptResource x _ | .removeResource x _
  | .acceptResourceRemoval x _ | .setPriority x _ | .addBasicResource x _
  | .addComposableResource x _ | .addSlotResource x _ | .buy x _ | .list x _ _
  | .acceptOffer x _ | .mintNftDirectlyToNft x .. => x = y
  | .send x t | .acceptNft x t => x = y ∨ t = .collectionAndNftTuple y.1 y.2
  | .setProperty c n _ _ => ∃ m, n = some m ∧ (c, m) = y
  | _ => False

/-! ## Up and down -/

/-- What is above a lost NFT is lost, and what is below one. -/
theorem lost_of_reaches (h : Reaches s.parent y z) : Lost s y ↔ Lost s z := by
  constructor
  · intro hy
    exact ⟨fun a ha => hy.rootless a ((rootOwner_of_reaches h).2 ha),
      fun w hw => hy.issued w (h.trans hw)⟩
  · intro hz
    refine ⟨fun a ha => hz.rootless a ((rootOwner_of_reaches h).1 ha), fun w hw howner => ?_⟩
    rcases reaches_total h hw with hzw | hwz
    · exact hz.issued w hzw howner
    · -- there is no way on from what has no owner
      rcases ReflTransGen.cases_head hwz with rfl | ⟨v, hv, -⟩
      · exact hz.issued w .refl howner
      · simp [Points, State.parent, howner] at hv

theorem not_lost_of_root (h : RootOwner s y b) : ¬ Lost s y := fun hy => hy.rootless b h

/-- **What hangs from itself is lost.** -/
theorem lost_of_cycle (h : TransGen (Points s.parent) y y) : Lost s y := by
  refine ⟨fun a ha => ha.not_transGen h, fun z hz howner => ?_⟩
  obtain ⟨v, hv, -⟩ := TransGen.head'_iff.1 (reaches_back h hz)
  simp [Points, State.parent, howner] at hv

/-- **And so is what has been issued, and is no more.** -/
theorem lost_of_gone (howner : s.owner y = none) (hy : y.2 < s.nextNftId y.1) : Lost s y := by
  refine ⟨fun a ha => by simpa [howner] using ha.owner_isSome, fun z hz _ => ?_⟩
  rcases ReflTransGen.cases_head hz with rfl | ⟨v, hv, -⟩
  · exact hy
  · simp [Points, State.parent, howner] at hv

theorem lost_congr (howner : s'.owner = s.owner) (hnext : s'.nextNftId = s.nextNftId) :
    Lost s' y ↔ Lost s y := by
  have hroot : (∀ a, ¬ RootOwner s' y a) ↔ ∀ a, ¬ RootOwner s y a :=
    forall_congr' fun a => not_congr (rootOwner_congr howner)
  have hparent := State.parent_congr howner
  constructor <;> intro h
  · exact ⟨hroot.1 h.rootless, by simpa only [hparent, howner, hnext] using h.issued⟩
  · exact ⟨hroot.2 h.rootless, by simpa only [hparent, howner, hnext] using h.issued⟩

/-! ## One write -/

/-- **A write is felt below it only.** -/
theorem lost_update (howner : s'.owner = Function.update s.owner x c)
    (hissued : ∀ z, z ≠ x → (z.2 < s'.nextNftId z.1 ↔ z.2 < s.nextNftId z.1))
    (hyx : ¬ Reaches s.parent y x) : Lost s' y ↔ Lost s y := by
  have hroot : (∀ a, ¬ RootOwner s' y a) ↔ ∀ a, ¬ RootOwner s y a :=
    forall_congr' fun a => not_congr (rootOwner_update howner hyx)
  have hreach : ∀ z, Reaches s'.parent y z ↔ Reaches s.parent y z := by
    intro z
    rw [State.parent_update howner]
    exact reaches_update_of_not hyx
  have hends : (∀ z, Reaches s'.parent y z → s'.owner z = none → z.2 < s'.nextNftId z.1) ↔
      ∀ z, Reaches s.parent y z → s.owner z = none → z.2 < s.nextNftId z.1 := by
    refine forall_congr' fun z => ?_
    rw [hreach z]
    refine imp_congr_right fun hz => ?_
    have hzx : z ≠ x := fun hzx => hyx (hzx ▸ hz)
    rw [howner, Function.update_of_ne hzx, hissued z hzx]
  exact ⟨fun h => ⟨hroot.1 h.rootless, hends.1 h.issued⟩,
    fun h => ⟨hroot.2 h.rootless, hends.2 h.issued⟩⟩

/-- **What a new owner loses**: all that is in the NFT that is given it, if
the owner is a lost NFT, or one that is in it. -/
theorem lost_put (howner : s'.owner = Function.update s.owner x (some b))
    (hissued : ∀ z, z ≠ x → (z.2 < s'.nextNftId z.1 ↔ z.2 < s.nextNftId z.1))
    (hx : ¬ Lost s x) : Lost s' y ↔ Lost s y ∨ Reaches s.parent y x ∧
      ∃ p, placeOf b = .under p ∧ (Lost s p ∨ Reaches s.parent p x) := by
  by_cases hyx : Reaches s.parent y x
  · have hy : ¬ Lost s y := fun hy => hx ((lost_of_reaches hyx).1 hy)
    have hyx' : Reaches s'.parent y x := by
      rw [State.parent_update howner]
      exact reaches_update_self.2 hyx
    have hb : s'.owner x = some b := by simp [howner]
    rw [lost_of_reaches hyx']
    simp only [hy, hyx, false_or, true_and]
    cases hd : decodeNftAccountId b with
    | none =>
        refine iff_of_false (not_lost_of_root ((rootOwner_of_owner hb hd).2 rfl)) ?_
        rintro ⟨p, hp, -⟩
        simp [placeOf_eq_under, hd] at hp
    | some p =>
        have hp : s'.parent x = some p := (State.parent_of_owner hb).trans hd
        simp only [placeOf_eq_under, hd, Option.some.injEq, exists_eq_left']
        by_cases hpx : Reaches s.parent p x
        · refine iff_of_true (lost_of_cycle (TransGen.head' (b := p) hp ?_)) (.inr hpx)
          rw [State.parent_update howner]
          exact reaches_update_self.2 hpx
        · simp only [hpx, or_false]
          rw [lost_of_reaches (.single hp), lost_update howner hissued hpx]
  · simp only [hyx, false_and, or_false]
    exact lost_update howner hissued hyx

/-- **What a burn loses**: all that is in what it burns. -/
theorem lost_burned (howner : s'.owner = Function.update s.owner x none)
    (hnext : s'.nextNftId = s.nextNftId) (hx : x.2 < s.nextNftId x.1) :
    Lost s' y ↔ Lost s y ∨ Reaches s.parent y x := by
  by_cases hyx : Reaches s.parent y x
  · simp only [hyx, or_true, iff_true]
    have hyx' : Reaches s'.parent y x := by
      rw [State.parent_update howner]
      exact reaches_update_self.2 hyx
    exact (lost_of_reaches hyx').2 (lost_of_gone (by simp [howner]) (hnext ▸ hx))
  · simp only [hyx, or_false]
    exact lost_update howner (fun z _ => by rw [hnext]) hyx

/-! ## One step -/

/-- A mint issues one identifier. -/
theorem Minted.issued_iff {nft : NftInfo} (h : Minted x b nft s s') (hzx : z ≠ x) :
    z.2 < s'.nextNftId z.1 ↔ z.2 < s.nextNftId z.1 := by
  have hroom : x.2.toNat + 1 < 4294967296 := h.room
  rw [h.nextNftId]
  by_cases hc : z.1 = x.1
  · have hne : z.2.toNat ≠ x.2.toNat := fun heq => hzx (Prod.ext hc (UInt32.toNat_inj.1 heq))
    rw [hc, Function.update_self, h.next, UInt32.lt_iff_toNat_lt, UInt32.lt_iff_toNat_lt,
      UInt32.toNat_add]
    have hone : (1 : UInt32).toNat = 1 := rfl
    omega
  · rw [Function.update_of_ne hc]

/-- What has not been issued is not lost. -/
theorem Minted.not_lost {nft : NftInfo} (hs : Sound s) (h : Minted x b nft s s') : ¬ Lost s x := by
  intro hx
  have := hx.issued x .refl (h.absent hs).owner
  rw [h.next] at this
  exact UInt32.lt_irrefl _ this

/-- A move loses what is in what it moves. -/
theorem loses_of_put {t : Place AccountId NftKey} (hmove : act.move s = .put x t) :
    act.Loses s y ↔ Reaches s.parent y x ∧
      ∃ p, t = .under p ∧ (Lost s p ∨ Reaches s.parent p x) := by
  constructor
  · rintro ⟨z, hyz, ⟨o, k, rfl⟩ | ⟨p, hp, hlost⟩⟩
    · simp [Act.move] at hmove
    · rw [hmove, Grove.Move.put.injEq] at hp
      obtain ⟨rfl, rfl⟩ := hp
      exact ⟨hyz, p, rfl, hlost⟩
  · rintro ⟨hyx, p, rfl, hlost⟩
    exact ⟨x, hyx, .inr ⟨p, hmove, hlost⟩⟩

theorem loses_of_burn {k : UInt32} :
    (Act.signed o (.burnNft x k)).Loses s y ↔ Reaches s.parent y x := by
  constructor
  · rintro ⟨z, hyz, ⟨o', k', hact⟩ | ⟨p, hp, -⟩⟩
    · obtain ⟨-, hcall⟩ := Act.signed.inj hact
      exact (Call.burnNft.inj hcall).1 ▸ hyz
    · simp [Act.move] at hp
  · exact fun hyx => ⟨x, hyx, .inl ⟨o, k, rfl⟩⟩

/-- What neither moves nor burns loses nothing. -/
theorem not_loses (hburn : ∀ o x k, act ≠ .signed o (.burnNft x k))
    (hmove : ∀ x t, act.move s ≠ .put x t) : ¬ act.Loses s y := by
  rintro ⟨x, -, ⟨o, k, hact⟩ | ⟨p, hp, -⟩⟩
  · exact hburn o x k hact
  · exact hmove _ _ hp

/-- **One step**: what is lost stays lost, and is joined by what the step
loses. -/
theorem Step.lost_iff (hs : Sound s) (hstep : Step s act s') :
    Lost s' y ↔ Lost s y ∨ act.Loses s y := by
  have hkept : s'.owner = s.owner → s'.nextNftId = s.nextNftId → ¬ act.Loses s y →
      (Lost s' y ↔ Lost s y ∨ act.Loses s y) := by
    intro ho hn hno
    rw [lost_congr ho hn, or_iff_left hno]
  have hput : ∀ {x : NftKey} {b : AccountId}, s'.owner = Function.update s.owner x (some b) →
      (∀ z, z ≠ x → (z.2 < s'.nextNftId z.1 ↔ z.2 < s.nextNftId z.1)) → ¬ Lost s x →
      act.move s = .put x (placeOf b) → (Lost s' y ↔ Lost s y ∨ act.Loses s y) := by
    intro x b ho hn hx hmove
    rw [lost_put ho hn hx, loses_of_put hmove]
  have hsame : s'.nextNftId = s.nextNftId → ∀ x z : NftKey, z ≠ x →
      (z.2 < s'.nextNftId z.1 ↔ z.2 < s.nextNftId z.1) := fun hn _ _ _ => by rw [hn]
  cases hstep.outcome with
  | silent hstill h =>
      refine hkept h.owner h.nextNftId (not_loses ?_ (by simp [move_of_still hstill]))
      rintro o x k rfl
      cases hstill
  | noted hstill h =>
      refine hkept h.owner h.nextNftId (not_loses ?_ (by simp [move_of_still hstill]))
      rintro o x k hact
      rw [hact] at hstill
      cases hstill
  | @mintNft o owner c _ _ _ _ _ n _ _ _ h =>
      obtain rfl : s.nextNftId c = n := h.next
      exact hput h.owner (fun _ => h.issued_iff) (h.not_lost hs) rfl
  | @mintNftDirectlyToNft o p c _ _ _ _ _ n _ _ _ _ _ h =>
      obtain rfl : s.nextNftId c = n := h.next
      exact hput h.owner (fun _ => h.issued_iff) (h.not_lost hs)
        (by rw [placeOf_nftToAccountId]; rfl)
  | send h =>
      exact hput h.owner (hsame h.nextNftId _) (not_lost_of_root h.root)
        (by rw [← h.target.account]; rfl)
  | acceptNft h =>
      exact hput h.owner (hsame h.nextNftId _) (not_lost_of_root h.root)
        (by rw [← h.target.account]; rfl)
  | burnNft hroot h howner =>
      rw [lost_burned howner h.nextNftId (hroot.issued hs), loses_of_burn]
  | rejectNft _ _ h howner => exact hkept howner h.nextNftId (not_loses nofun nofun)
  | unequip h => exact hkept h.owner h.nextNftId (not_loses nofun nofun)
  | equip h => exact hkept h.owner h.nextNftId (not_loses nofun nofun)
  | list _ _ _ h => exact hkept h.owner h.nextNftId (not_loses nofun nofun)
  | unlist _ h => exact hkept h.owner h.nextNftId (not_loses nofun nofun)
  | buy _ _ _ h =>
      exact hput h.owner (hsame h.nextNftId _) (not_lost_of_root h.root) rfl
  | acceptOffer hoffer h =>
      exact hput h.owner (hsame h.nextNftId _) (not_lost_of_root h.root)
        (by simp only [Act.move, hoffer])

/-- **Who wants the root owner of an NFT finds one**, where the call goes
through. -/
theorem Step.rootOwner_of_wants {call : Call W} (hstep : Step s (.signed o call) s')
    (hwants : call.Wants y) : ∃ a, RootOwner s y a := by
  change dispatch o call s = .ok () s' at hstep
  have hadded : ∀ {x : NftKey} {resource : ResourceTypes},
      Core.addResource o x resource s = .ok () s' → x = y → ∃ a, RootOwner s y a := by
    rintro x resource hstep rfl
    obtain ⟨a, ha, -⟩ := (Core.addResource_ok hstep).resources
    exact ⟨a, ha⟩
  cases call with
  | mintNftDirectlyToNft p =>
      obtain rfl : p = y := hwants
      obtain ⟨n, nft, -, -, hroot, -⟩ := Core.mintNftDirectlyToNft_ok hstep
      exact hroot
  | burnNft x =>
      obtain rfl : x = y := hwants
      exact ⟨o, (Core.burnNft_ok hstep).1⟩
  | rejectNft x =>
      obtain rfl : x = y := hwants
      exact ⟨o, (Core.rejectNft_ok hstep).1⟩
  | send x t =>
      obtain rfl | rfl := hwants
      · obtain ⟨old, new, nft, nft', h, -⟩ := Core.send_ok hstep
        exact ⟨o, h.root⟩
      · exact Core.send_target hstep
  | acceptNft x t =>
      obtain ⟨new, nft, h⟩ := Core.acceptNft_ok hstep
      obtain rfl | rfl := hwants
      · exact ⟨o, h.root⟩
      · exact ⟨o, not_not.1 h.approved⟩
  | setProperty c n k v =>
      obtain ⟨m, rfl, rfl⟩ := hwants
      exact ⟨o, ((Core.setProperty_ok hstep).2.1 m rfl).2⟩
  | addBasicResource => exact hadded hstep hwants
  | addComposableResource => exact hadded hstep hwants
  | addSlotResource => exact hadded hstep hwants
  | acceptResource x =>
      obtain rfl : x = y := hwants
      exact ⟨o, (Core.acceptResource_ok hstep).1⟩
  | removeResource x =>
      obtain rfl : x = y := hwants
      simp only [dispatch, Core.removeResource, Effect.transactional_ok, Core.resourceRemove,
        Effect.get_bind_ok, Effect.okOr_bind_ok, lookupRootOwner_bind_ok] at hstep
      obtain ⟨-, -, a, root, hroot, -⟩ := hstep
      exact ⟨a, root, hroot⟩
  | acceptResourceRemoval x =>
      obtain rfl : x = y := hwants
      exact ⟨o, (Core.acceptResourceRemoval_ok hstep).1⟩
  | setPriority x =>
      obtain rfl : x = y := hwants
      exact ⟨o, (Core.setPriority_ok hstep).1⟩
  | buy x =>
      obtain rfl : x = y := hwants
      obtain ⟨old, info, nft, nft', -, -, -, h, -⟩ := Market.buy_ok hstep
      exact ⟨old, h.root⟩
  | list x =>
      obtain rfl : x = y := hwants
      obtain ⟨howner, hparent, -⟩ := Market.list_ok hstep
      have hord : decodeNftAccountId o = none := (State.parent_of_owner howner).symm.trans hparent
      exact ⟨o, (rootOwner_of_owner howner hord).2 rfl⟩
  | acceptOffer x =>
      obtain rfl : x = y := hwants
      obtain ⟨offer, nft, nft', -, -, h, -⟩ := Market.acceptOffer_ok hstep
      exact ⟨o, h.root⟩
  | _ => exact hwants.elim

/-- **A lost NFT keeps its owner**: what writes one has the root owner of
what it moves, or has just issued it. -/
theorem Step.owner_of_lost (hs : Sound s) (hstep : Step s act s') (hy : Lost s y) :
    s'.owner y = s.owner y := by
  have hput : ∀ {x : NftKey} {c : Option AccountId}, s'.owner = Function.update s.owner x c →
      ¬ Lost s x → s'.owner y = s.owner y := by
    intro x c ho hx
    have hyx : y ≠ x := fun hyx => hx (hyx ▸ hy)
    rw [ho, Function.update_of_ne hyx]
  cases hstep.outcome with
  | silent _ h => rw [h.owner]
  | noted _ h => rw [h.owner]
  | mintNft _ _ h => exact hput h.owner (h.not_lost hs)
  | mintNftDirectlyToNft _ _ _ h => exact hput h.owner (h.not_lost hs)
  | send h => exact hput h.owner (not_lost_of_root h.root)
  | acceptNft h => exact hput h.owner (not_lost_of_root h.root)
  | burnNft hroot _ howner => exact hput howner (not_lost_of_root hroot)
  | rejectNft _ _ _ howner => rw [howner]
  | unequip h => rw [h.owner]
  | equip h => rw [h.owner]
  | list _ _ _ h => rw [h.owner]
  | unlist _ h => rw [h.owner]
  | buy _ _ _ h => exact hput h.owner (not_lost_of_root h.root)
  | acceptOffer _ h => exact hput h.owner (not_lost_of_root h.root)

/-! ## Runs -/

theorem not_lost_genesis (h : Genesis s) : ¬ Lost s y := by
  obtain ⟨w, hw, -, rfl⟩ := h
  intro hy
  exact UInt32.not_lt_zero (hy.issued y .refl (hw y))

/-- **What is lost is what a step of the run has lost**, and that for
good. -/
theorem lost_iff_past (hr : IsRun h s) : Lost s y ↔ Run.Past (fun s act => act.Loses s y) h :=
  hr.past_iff (P := fun s => Lost s y) (fun _ h0 => not_lost_genesis h0)
    fun _ _ _ hr hstep => hstep.lost_iff (Reachable.sound hr)

namespace Mock

/-- What is minted to an NFT is lost when that is burned. -/
theorem lost_burnedParent : Lost (replay burnedParent) (0, 1) := by
  refine (lost_iff_past (isRun_replay (by decide +kernel))).2 ?_
  have hparent : (replay (burnedParent.drop 1)).parent (0, 1) = some (0, 0) := by decide +kernel
  exact ⟨_, List.mem_cons_self, (0, 0), .single hparent, .inl ⟨alice, 10, rfl⟩⟩

end Mock

/-- **Nothing can be done about a lost NFT**: it stays with the owner it is
lost with, and no call that wants its root owner goes through again. -/
theorem lost_for_good (hr : IsRun h s) {newer older : List (State W × Act W)}
    {e : State W × Act W} (hh : h = newer ++ e :: older) (hy : Lost e.1 y) :
    Run.Throughout (fun t => Lost t y ∧ t.owner y = e.1.owner y) newer s ∧
      ∀ e' ∈ newer ++ [e], ∀ o call, e'.2 = .signed o call → ¬ call.Wants y := by
  refine hr.stable (P := fun t => Lost t y ∧ t.owner y = e.1.owner y)
    (Q := fun _ act => ∀ o call, act = .signed o call → ¬ call.Wants y)
    (fun s act s' hr hs hstep => ?_) hh ⟨hy, rfl⟩
  have hsound := Reachable.sound hr
  refine ⟨⟨(hstep.lost_iff hsound).2 (.inl hs.1), (hstep.owner_of_lost hsound hs.1).trans hs.2⟩, ?_⟩
  rintro o call rfl hwants
  obtain ⟨a, ha⟩ := hstep.rootOwner_of_wants hwants
  exact hs.1.rootless a ha

namespace Mock

/-- Alice mints another after it. -/
def mintedOnward : List Extrinsic := (alice, mintTo bob) :: burnedParent

/-- What is lost stays with the NFT that has gone. -/
theorem lost_mintedOnward : Lost (replay mintedOnward) (0, 1) ∧
    (replay mintedOnward).owner (0, 1) = (replay burnedParent).owner (0, 1) := by
  have hparent : (replay burnedParent).parent (0, 1) = some (0, 0) := by decide +kernel
  have hgone : (replay burnedParent).owner (0, 0) = none := by decide +kernel
  have hlost : Lost (replay burnedParent) (0, 1) :=
    (lost_of_reaches (.single hparent)).2 (lost_of_gone hgone (by decide +kernel))
  have hrun : IsRun (history mintedOnward) (replay mintedOnward) :=
    isRun_replay (by decide +kernel)
  have hh : history mintedOnward =
      [] ++ (replay burnedParent, .signed alice (mintTo bob)) :: history burnedParent := rfl
  exact (lost_for_good hrun hh hlost).1.1

end Mock

/-! ## What was offered for it -/

/-- The calls that make, withdraw or accept an offer on `x`. -/
def Call.Bids (x : NftKey) : Call W → Prop
  | .makeOffer y .. | .withdrawOffer y | .acceptOffer y _ => y = x
  | _ => False

theorem Step.owner_of_bids {call : Call W} (hstep : Step s (.signed o call) s')
    (hbids : call.Bids x) : (s.owner x).isSome = true := by
  cases call with
  | makeOffer y =>
      obtain rfl : y = x := hbids
      exact (Market.makeOffer_reserves hstep).1
  | withdrawOffer y =>
      obtain rfl : y = x := hbids
      obtain ⟨offer, owner, -, howner, -⟩ := Market.withdrawOffer_iff.1 hstep
      simp [howner]
  | acceptOffer y k =>
      obtain ⟨a, ha⟩ := hstep.rootOwner_of_wants (y := x) hbids
      exact ha.owner_isSome
  | _ => exact hbids.elim

variable [Deposits W]

/-- **A step leaves the offers on a token without an owner alone.** -/
theorem Step.offers_of_gone (hstep : Step s act s') (hx : s.owner x = none) (k : AccountId) :
    s'.offers (x, k) = s.offers (x, k) := by
  have hne : ∀ {o : AccountId} {call : Call W} {y : NftKey} {l : AccountId},
      Step s (.signed o call) s' → call.Bids y → (x, k) ≠ (y, l) := by
    rintro o call y l hstep hbids heq
    have := hstep.owner_of_bids hbids
    rw [← (Prod.mk.inj heq).1, hx] at this
    cases this
  cases hstep.escrowed with
  | same h => rw [h.offers]
  | @made o y v e w _ _ _ h =>
      rw [h]
      exact StorageMap.insert_of_ne (hne hstep rfl)
  | @withdrawn o y offer _ h =>
      rw [h]
      exact StorageMap.remove_of_ne (hne hstep rfl)
  | @accepted o l y offer t _ hsold h =>
      rw [h]
      exact (StorageMap.remove_of_ne (hne hstep rfl)).trans (by rw [hsold.offers])

/-- **What was offered for `x` in `t` is stranded**: the offers are still
there, with their amounts reserved, and the NFT is not. -/
structure Stranded (t : State W) (x : NftKey) (s : State W) : Prop where
  owner : s.owner x = none
  offers : ∀ k, s.offers (x, k) = t.offers (x, k)
  reserved : ∀ k offer, s.offers (x, k) = some offer → offer.amount ≤ Currency.reserved s.ext k

theorem Solvent.reserved (hs : Solvent s) (k : AccountId) (offer : Offer)
    (hoffer : s.offers (x, k) = some offer) : offer.amount ≤ Currency.reserved s.ext k :=
  hs.maker x k offer hoffer ▸ hs.amount_le hoffer

/-- **Offers on an NFT that is gone are stranded for good**, and no call
about them goes through again. -/
theorem offers_stranded (hr : IsRun h s) {newer older : List (State W × Act W)}
    {e : State W × Act W} (hh : h = newer ++ e :: older) (hgone : e.1.owner x = none)
    (hissued : x.2 < e.1.nextNftId x.1) : Run.Throughout (Stranded e.1 x) newer s ∧
      ∀ e' ∈ newer ++ [e], ∀ o call, e'.2 = .signed o call → ¬ call.Bids x := by
  have hkept : ∀ s act s', Reachable s → Lost s x ∧ Stranded e.1 x s → Step s act s' →
      (Lost s' x ∧ Stranded e.1 x s') ∧ ∀ o call, act = .signed o call → ¬ call.Bids x := by
    rintro s act s' hr ⟨hlost, hs⟩ hstep
    have hsound := Reachable.sound hr
    refine ⟨⟨(hstep.lost_iff hsound).2 (.inl hlost), ?_⟩, ?_⟩
    · exact {
        owner := (hstep.owner_of_lost hsound hlost).trans hs.owner
        offers := fun k => (hstep.offers_of_gone hs.owner k).trans (hs.offers k)
        reserved := ((Reachable.solvent hr).step hstep).reserved }
    · rintro o call rfl hbids
      have := hstep.owner_of_bids hbids
      simp [hs.owner] at this
  have he : Reachable e.1 := hr.reachable_of_mem e (by simp [hh])
  have hstart : Stranded e.1 x e.1 := ⟨hgone, fun _ => rfl, (Reachable.solvent he).reserved⟩
  obtain ⟨⟨hs, hall⟩, hno⟩ := hr.stable hkept hh ⟨lost_of_gone hgone hissued, hstart⟩
  exact ⟨⟨hs.2, fun e' he' => (hall e' he').2⟩, hno⟩

namespace Mock

/-- Bob's offer is on an NFT that has been burned, and others are minted. -/
def offeredOnward : List Extrinsic := (alice, mintTo bob) :: burnedUnderOffer

/-- **Funds that never come back.** -/
theorem stranded_offeredOnward :
    Stranded (replay burnedUnderOffer) (0, 0) (replay offeredOnward) := by
  have hrun : IsRun (history offeredOnward) (replay offeredOnward) :=
    isRun_replay (by decide +kernel)
  have hh : history offeredOnward =
      [] ++ (replay burnedUnderOffer, .signed alice (mintTo bob)) :: history burnedUnderOffer := rfl
  exact (offers_stranded hrun hh (by decide +kernel) (by decide +kernel)).1.1

end Mock

end Rmrk
