import Rmrk.Common.Grove
import Rmrk.Properties.Moorings
/-!
# What the ledgers depict

The records of `rmrk-core` and the owners of `pallet_uniques` are meant as
a picture of something simpler: a grove, whose grounds are accounts and
whose nodes are the NFTs. `lookup_root_owner` reads off the ground an NFT
stands on and `is_x_descendent_of_y` what it stands under; a mint plants,
a send or a sale moves, a burn fells. A run is a run of the grove exactly
if no call of it does what a grove does not allow.
-/

namespace Rmrk

open Relation Pointer

variable {W : Type} [Config W] {s s' : State W} {act : Act W} {h : List (State W × Act W)}
variable {x y p : NftKey} {a o : AccountId} {g g' : Grove AccountId NftKey}

/-! ## The picture -/

/-- Where its owner puts an NFT. -/
def placeOf (a : AccountId) : Place AccountId NftKey :=
  match decodeNftAccountId a with
  | none => .ground a
  | some p => .under p

/-- Where an NFT stands, if it is there. -/
def State.place (s : State W) (x : NftKey) : Option (Place AccountId NftKey) :=
  if (s.nfts x).isSome then (s.owner x).map placeOf else none

/-- **The ledgers depict the grove**: the NFTs that are there stand where
their owners put them, and the two recursions answer for it. -/
structure Depicts (s : State W) (g : Grove AccountId NftKey) : Prop where
  place : g.place = s.place
  live : ∀ x, (g.place x).isSome = true ↔ (s.nfts x).isSome = true
  lookup : ∀ x a, (g.place x).isSome = true →
    ((∃ top, lookupRootOwner x s = .ok (a, top) s) ↔ Stands g.place x a)
  descendent : ∀ x y, (g.place x).isSome = true →
    ∃ d, isXDescendentOfY x y s = .ok d s ∧ (d = true ↔ TransGen (Points g.above) x y)

/-- Under an NFT is what the account of that NFT owns. -/
theorem placeOf_eq_under : placeOf a = .under p ↔ decodeNftAccountId a = some p := by
  unfold placeOf
  cases decodeNftAccountId a <;> simp

/-- On the ground is what anybody else owns. -/
theorem placeOf_eq_ground {b : AccountId} :
    placeOf a = .ground b ↔ a = b ∧ decodeNftAccountId a = none := by
  unfold placeOf
  cases decodeNftAccountId a <;> simp

@[simp] theorem placeOf_nftToAccountId : placeOf (nftToAccountId p) = .under p :=
  placeOf_eq_under.2 decodeNftAccountId_nftToAccountId

theorem State.place_of_live (hx : (s.nfts x).isSome = true) :
    s.place x = (s.owner x).map placeOf := if_pos hx

theorem State.place_of_not_live (hx : ¬ (s.nfts x).isSome = true) : s.place x = none := if_neg hx

/-- **In a sound state what is there has a place.** -/
theorem State.place_isSome (hs : Sound s) :
    (s.place x).isSome = true ↔ (s.nfts x).isSome = true := by
  by_cases hx : (s.nfts x).isSome = true
  · rw [State.place_of_live hx, Option.isSome_map]
    refine iff_of_true ?_ hx
    by_contra howner
    have := hs.owned x (by simpa using howner)
    simp [this] at hx
  · simp [State.place_of_not_live hx, hx]

/-- Under `p` stands what is there and has `p` for a parent. -/
theorem State.place_eq_under : s.place x = some (.under p) ↔
    (s.nfts x).isSome = true ∧ s.parent x = some p := by
  by_cases hx : (s.nfts x).isSome = true
  · simp only [State.place_of_live hx, hx, true_and, State.parent]
    cases s.owner x with
    | none => simp
    | some b => simp [placeOf_eq_under]
  · simp [State.place_of_not_live hx, hx]

/-- On the ground of `a` stands what is there and is `a`'s. -/
theorem State.place_eq_ground : s.place x = some (.ground a) ↔
    (s.nfts x).isSome = true ∧ s.owner x = some a ∧ decodeNftAccountId a = none := by
  by_cases hx : (s.nfts x).isSome = true
  · simp only [State.place_of_live hx, hx, true_and]
    cases s.owner x with
    | none => simp
    | some b =>
        simp only [Option.map_some, Option.some.injEq, placeOf_eq_ground]
        exact and_congr_right fun h => by rw [h]
  · simp [State.place_of_not_live hx, hx]

/-! ## Reading it off -/

/-- Up the grove is up the owners, from what is there. -/
theorem reaches_place_iff (hg : g.place = s.place) (hx : (g.place x).isSome = true) :
    Reaches g.above x y ↔ Reaches s.parent x y := by
  have hstep : ∀ {z w}, nodeAbove g.place z = some w ↔
      (s.nfts z).isSome = true ∧ s.parent z = some w := by
    intro z w
    rw [nodeAbove_eq_some, hg, State.place_eq_under]
  constructor
  · exact ReflTransGen.mono (fun _ _ hzw => (hstep.1 hzw).2) _ _
  · intro hxy
    induction hxy with
    | refl => exact .refl
    | @tail z w _ hzw ih =>
        have hz := Grove.isSome_of_reaches ih hx
        have hlive : (s.nfts z).isSome = true := by
          by_contra hz'
          rw [hg, State.place_of_not_live hz'] at hz
          simp at hz
        exact ih.tail (hstep.2 ⟨hlive, hzw⟩)

/-- And so in one step or more. -/
theorem transGen_place_iff (hg : g.place = s.place) (hx : (g.place x).isSome = true) :
    TransGen (Points g.above) x y ↔ TransGen (Points s.parent) x y := by
  rw [TransGen.tail'_iff, TransGen.tail'_iff]
  refine exists_congr fun z => ?_
  rw [show ReflTransGen (Points g.above) x z ↔ Reaches s.parent x z from reaches_place_iff hg hx]
  refine and_congr_right fun hxz => ?_
  have hz := Grove.isSome_of_reaches ((reaches_place_iff hg hx).2 hxz) hx
  have hlive : (s.nfts z).isSome = true := by
    by_contra hz'
    rw [hg, State.place_of_not_live hz'] at hz
    simp at hz
  rw [Points, nodeAbove_eq_some, hg, State.place_eq_under, Points]
  exact and_iff_right hlive

/-- **The ground an NFT stands on is its root owner.** -/
theorem stands_iff_rootOwner (hg : g.place = s.place) (hx : (g.place x).isSome = true) :
    Stands g.place x a ↔ RootOwner s x a := by
  have hroot : ∀ {y b}, Stands s.place y b → RootOwner s y b := by
    intro y b hy
    induction hy with
    | ground h =>
        obtain ⟨-, howner, hord⟩ := State.place_eq_ground.1 h
        exact (rootOwner_of_owner howner hord).2 rfl
    | under h _ ih => exact (rootOwner_of_parent (State.place_eq_under.1 h).2).2 ih
  refine ⟨fun h => hroot (hg ▸ h), fun h => ?_⟩
  obtain ⟨b, hb⟩ := g.stands x hx
  exact (hroot (hg ▸ hb)).unique h ▸ hb

theorem descendent_returns (hg : g.place = s.place) (hx : (g.place x).isSome = true) :
    ∃ d, Walk.Returns (descendentStep s y) x d := by
  obtain ⟨b, hb⟩ := g.stands x hx
  rw [hg] at hb
  clear hg hx
  induction hb with
  | @ground x b h =>
      obtain ⟨-, howner, hord⟩ := State.place_eq_ground.1 h
      refine ⟨false, .here ?_⟩
      rw [descendentStep_eq, State.parent_of_owner howner, hord]
  | @under x p b h _ ih =>
      have hp := (State.place_eq_under.1 h).2
      obtain ⟨d, hd⟩ := ih
      by_cases hpy : p = y
      · exact ⟨true, .here (by rw [descendentStep_eq, hp]; exact if_pos hpy)⟩
      · exact ⟨d, .call (by rw [descendentStep_eq, hp]; exact if_neg hpy) hd⟩

/-- **The picture is all in the places.** -/
theorem depicts_iff (hs : Sound s) : Depicts s g ↔ g.place = s.place := by
  refine ⟨Depicts.place, fun hg => ⟨hg, fun x => by rw [hg, State.place_isSome hs], ?_, ?_⟩⟩
  · intro x a hx
    rw [stands_iff_rootOwner hg hx]
    exact exists_congr fun top => lookupRootOwner_ok.trans (and_iff_left rfl)
  · intro x y hx
    obtain ⟨d, hd⟩ := descendent_returns (y := y) hg hx
    refine ⟨d, isXDescendentOfY_ok.2 ⟨hd, rfl⟩, ?_⟩
    rw [transGen_place_iff hg hx]
    cases d with
    | true => exact iff_of_true rfl (transGen_of_descendent hd)
    | false => exact iff_of_false nofun (not_transGen_of_descendent hd)

/-! ## Steps as moves -/

/-- What a step does to the grove. -/
def Act.move (s : State W) : Act W → Grove.Move AccountId NftKey
  | .signed o (.mintNft owner c ..) => .put (c, s.nextNftId c) (placeOf (owner.getD o))
  | .signed _ (.mintNftDirectlyToNft p c ..) => .put (c, s.nextNftId c) (.under p)
  | .signed _ (.send x newOwner) | .signed _ (.acceptNft x newOwner) =>
      .put x (placeOf newOwner.account)
  | .signed o (.buy x _) => .put x (placeOf o)
  | .signed _ (.acceptOffer x offerer) =>
      match s.offers (x, offerer) with
      | some offer => .put x (placeOf offer.maker)
      | none => .stay
  | .signed _ (.burnNft x _) | .signed _ (.rejectNft x) => .fell x
  | _ => .stay

/-- Of what is there the index reaches from `x` what stands under it, and
nothing else. -/
def TakesExactly (s : State W) (x : NftKey) : Prop :=
  ∀ y, (s.nfts y).isSome = true → (Below s x y ↔ Reaches s.parent y x)

/-- **A step does what the grove allows**: what is planted or moved goes to
an account, or to an NFT that is there and not under it, and what is
felled is what stands under an NFT. -/
def Composes (s : State W) : Act W → Prop
  | .signed _ (.burnNft x _) | .signed _ (.rejectNft x) => TakesExactly s x
  | act => KeepsMoorings s act

/-- A step that moves no NFT is no move. -/
theorem move_of_still (h : act.still = true) : act.move s = .stay := by
  cases act with
  | between => rfl
  | signed o c => cases c <;> first | rfl | cases h

/-- And the grove allows it. -/
theorem composes_of_still (h : act.still = true) : Composes s act := by
  cases act with
  | between => trivial
  | signed o c => cases c <;> trivial

/-- **A place that fits is a berth.** -/
theorem fits_iff_berth (hd : Depicts s g) : g.Fits x (placeOf a) ↔ Berth s x a := by
  simp only [Grove.Fits, Berth, placeOf_eq_under]
  refine forall₂_congr fun p _ => ?_
  rw [hd.live]
  exact and_congr_right fun hp =>
    not_congr (reaches_place_iff hd.place ((hd.live p).2 hp))

/-- An NFT put where its new owner is. -/
theorem State.place_put (howner : s'.owner = Function.update s.owner x (some a))
    (hlive : ∀ z, (s'.nfts z).isSome = true ↔ (s.nfts z).isSome = true ∨ z = x) :
    s'.place = Function.update s.place x (some (placeOf a)) := by
  funext z
  by_cases hz : z = x
  · subst hz
    rw [State.place_of_live ((hlive z).2 (.inr rfl)), howner]
    simp
  · have hiff : (s'.nfts z).isSome = true ↔ (s.nfts z).isSome = true := by simp [hlive, hz]
    simp only [State.place, hiff, howner, Function.update_of_ne hz]

/-- Places are owners, and what is there. -/
theorem State.place_congr (howner : s'.owner = s.owner)
    (hnfts : ∀ z, s'.nfts z = none ↔ s.nfts z = none) : s'.place = s.place := by
  funext z
  have hiff : (s'.nfts z).isSome = true ↔ (s.nfts z).isSome = true := by
    rw [Option.isSome_iff_ne_none, Option.isSome_iff_ne_none, ne_eq, ne_eq, hnfts]
  simp only [State.place, hiff, howner]

/-- **A put is matched exactly if its place fits.** -/
theorem matched_put (hs' : Sound s') (hd : Depicts s g)
    (howner : s'.owner = Function.update s.owner x (some a))
    (hlive : ∀ z, (s'.nfts z).isSome = true ↔ (s.nfts z).isSome = true ∨ z = x) :
    (∃ g', g.Step (.put x (placeOf a)) g' ∧ Depicts s' g') ↔ g.Fits x (placeOf a) := by
  constructor
  · rintro ⟨g', ⟨hfits, -⟩, -⟩
    exact hfits
  · intro hfits
    refine ⟨g.put x (placeOf a) hfits, ⟨hfits, rfl⟩, (depicts_iff hs').2 ?_⟩
    rw [Grove.put_place, State.place_put howner hlive, hd.place]

/-- **And a burn exactly if it takes what stands under the NFT.** -/
theorem matched_fell {q : Option NftKey} (hs' : Sound s') (hd : Depicts s g)
    (hdest : Destroyed x q s s') (howner : ∀ z, z ≠ x → s'.owner z = s.owner z) :
    (∃ g', g.Step (.fell x) g' ∧ Depicts s' g') ↔ TakesExactly s x := by
  have hbelow : ∀ z, Below s x z → s'.place z = none := fun z hz =>
    State.place_of_not_live (by simp [hdest.nfts_below z hz])
  have helse : ∀ z, ¬ Below s x z → s'.place z = s.place z := by
    intro z hz
    have hzx : z ≠ x := by rintro rfl; exact hz .refl
    simp only [State.place, hdest.nfts_else z hz, howner z hzx]
  have hlive : ∀ {z}, s.place z ≠ none → (s.nfts z).isSome = true := by
    intro z hz
    rwa [← hd.live, hd.place, Option.isSome_iff_ne_none]
  have hup : ∀ {z}, s.place z ≠ none → (Reaches g.above z x ↔ Reaches s.parent z x) := fun hz =>
    reaches_place_iff hd.place ((hd.live _).2 (hlive hz))
  constructor
  · rintro ⟨_, rfl, hd'⟩ z hz
    have hsome : s.place z ≠ none := by rwa [← Option.isSome_iff_ne_none, ← hd.place, hd.live]
    have hplace := congrFun hd'.place z
    rw [← hup hsome]
    by_cases hr : Reaches g.above z x
    · refine iff_of_true ?_ hr
      by_contra hb
      rw [Grove.fell_of_reaches hr, helse z hb] at hplace
      exact hsome hplace.symm
    · refine iff_of_false (fun hb => ?_) hr
      rw [Grove.fell_of_not_reaches hr, hbelow z hb, hd.place] at hplace
      exact hsome hplace
  · intro ht
    have htakes : ∀ {z}, s.place z ≠ none → (Below s x z ↔ Reaches g.above z x) := fun hz =>
      (ht _ (hlive hz)).trans (hup hz).symm
    refine ⟨g.fell x, rfl, (depicts_iff hs').2 (funext fun z => ?_)⟩
    by_cases hr : Reaches g.above z x
    · rw [Grove.fell_of_reaches hr]
      by_contra hz
      have hb : ¬ Below s x z := fun hb => hz (hbelow z hb).symm
      rw [helse z hb] at hz
      exact hb ((htakes (Ne.symm hz)).2 hr)
    · rw [Grove.fell_of_not_reaches hr, hd.place]
      by_cases hb : Below s x z
      · rw [hbelow z hb]
        by_contra hz
        exact hr ((htakes hz).1 hb)
      · rw [helse z hb]

/-- **One step is a move of the grove exactly if it does what the grove
allows.** -/
theorem composition_step (hs : Sound s) (hs' : Sound s') (hd : Depicts s g)
    (hstep : Step s act s') :
    (∃ g', g.Step (act.move s) g' ∧ Depicts s' g') ↔ Composes s act := by
  have hstay : s'.place = s.place → act.move s = .stay → Composes s act →
      ((∃ g', g.Step (act.move s) g' ∧ Depicts s' g') ↔ Composes s act) := by
    intro hplace hmove hc
    rw [hmove]
    exact iff_of_true ⟨g, rfl, (depicts_iff hs').2 (hd.place.trans hplace.symm)⟩ hc
  have hsame : s'.nfts = s.nfts → ∀ z, s'.nfts z = none ↔ s.nfts z = none := fun hn z => by rw [hn]
  have hborn : ∀ {n : NftKey} {nft : NftInfo}, s'.nfts = s.nfts.insert n nft → ∀ z,
      (s'.nfts z).isSome = true ↔ (s.nfts z).isSome = true ∨ z = n := by
    intro n nft hn z
    rw [hn]
    by_cases hz : z = n <;> simp [hz]
  cases hstep.outcome with
  | silent hstill h =>
      exact hstay (State.place_congr h.owner (hsame h.nfts)) (move_of_still hstill)
        (composes_of_still hstill)
  | noted hstill h =>
      exact hstay (State.place_congr h.owner (hsame h.nfts)) (move_of_still hstill)
        (composes_of_still hstill)
  | @mintNft o owner c _ _ _ _ _ n _ _ _ h =>
      obtain rfl : s.nextNftId c = n := h.next
      exact (matched_put hs' hd h.owner (hborn h.nfts)).trans (fits_iff_berth hd)
  | @mintNftDirectlyToNft o p c _ _ _ _ _ n _ _ _ _ _ h =>
      obtain rfl : s.nextNftId c = n := h.next
      have hput := matched_put hs' hd h.owner (hborn h.nfts)
      rw [placeOf_nftToAccountId, Grove.fits_under_iff, hd.live] at hput
      · exact hput
      · rw [hd.place, State.place_of_not_live (by simp [(h.absent hs).nfts])]
  | @send o x newOwner old new nft nft' h =>
      have hput := matched_put hs' hd h.owner (isSome_of_insert h.nfts_eq h.nfts)
      rw [fits_iff_berth hd, ← h.target.account] at hput
      refine hput.trans ?_
      cases newOwner with
      | accountId id => rfl
      | collectionAndNftTuple cid nid =>
          rw [h.target.account]
          exact iff_of_true h.target.berth trivial
  | @acceptNft o x newOwner new nft h =>
      have hput := matched_put hs' hd h.owner (isSome_of_insert h.nfts_eq h.nfts)
      rw [fits_iff_berth hd, ← h.target.account] at hput
      refine hput.trans ?_
      cases newOwner with
      | accountId id => rfl
      | collectionAndNftTuple cid nid =>
          rw [h.target.account]
          exact iff_of_true h.target.berth trivial
  | burnNft _ h howner =>
      exact matched_fell hs' hd h fun z hz => by rw [howner, Function.update_of_ne hz]
  | rejectNft _ _ h howner => exact matched_fell hs' hd h fun z _ => by rw [howner]
  | unequip h =>
      exact hstay (State.place_congr h.owner fun z => by rw [h.nfts, StorageMap.mutate_eq_none_iff])
        rfl trivial
  | equip h =>
      exact hstay (State.place_congr h.owner fun z => by rw [h.nfts, StorageMap.mutate_eq_none_iff])
        rfl trivial
  | list _ _ _ h => exact hstay (State.place_congr h.owner (hsame h.nfts)) rfl trivial
  | unlist _ h => exact hstay (State.place_congr h.owner (hsame h.nfts)) rfl trivial
  | buy _ _ _ h =>
      exact (matched_put hs' hd h.owner (isSome_of_insert h.nfts_eq h.nfts)).trans
        (fits_iff_berth hd)
  | acceptOffer hoffer h =>
      have hput := matched_put hs' hd h.owner (isSome_of_insert h.nfts_eq h.nfts)
      rw [fits_iff_berth hd] at hput
      simpa only [Act.move, hoffer, Composes, KeepsMoorings, Option.some.injEq, forall_eq'] using
        hput

/-! ## Every run -/

/-- At genesis the grove is bare. -/
theorem depicts_genesis (h : Genesis s) : ∃ g, g = Grove.bare ∧ Depicts s g := by
  have hs : Sound s := Reachable.sound (Run.start h).reachable
  obtain ⟨w, -, -, rfl⟩ := h
  exact ⟨_, rfl, (depicts_iff hs).2 (funext fun _ => rfl)⟩

/-- **A run of the runtime is a run of the grove** that starts bare and
makes the moves the calls stand for, each state a picture of the grove it
is matched with, exactly if every call does what the grove allows. -/
theorem composition_run (hr : IsRun h s) :
    (∃ k g, Run (· = Grove.bare) Grove.Step k g ∧ Depicts s g ∧
      List.Forall₂ (fun e e' => Depicts e.1 e'.1 ∧ e'.2 = e.2.move e.1) h k) ↔
        ∀ e ∈ h, Composes e.1 e.2 := by
  refine Run.matched_iff (fun _ => depicts_genesis) (fun s act s' g hreach hstep hd => ?_) hr
  have hs' : Sound s' := by
    obtain ⟨h, hr⟩ := hreach
    exact Reachable.sound (hr.step hstep).reachable
  exact composition_step (Reachable.sound hreach) hs' hd hstep

namespace Mock

/-- Alice sends one of two NFTs into the other, mints a third to it and
sells the whole to Bob. -/
def soldWhole : List Extrinsic :=
  [(bob, .buy (0, 0) none), (alice, .list (0, 0) 100 none), (alice, mintInto (0, 1)),
    (alice, .send (0, 1) (.collectionAndNftTuple 0 0)), (alice, mintTo alice),
    (alice, mintTo alice), (alice, newCollection)]

/-- **A composition that is sold whole** is a run of the grove. -/
theorem composition_soldWhole : ∃ k g, Run (· = Grove.bare) Grove.Step k g ∧
    Depicts (replay soldWhole) g ∧
    List.Forall₂ (fun e e' => Depicts e.1 e'.1 ∧ e'.2 = e.2.move e.1) (history soldWhole) k := by
  refine (composition_run (isRun_replay (by decide +kernel))).2 ?_
  have hberth : ∀ {s : State Storage} {x : NftKey} {a : AccountId},
      decodeNftAccountId a = none → Berth s x a := fun h p hp => by simp [h] at hp
  simp only [soldWhole, history, List.forall_mem_cons, List.not_mem_nil, false_imp_iff,
    implies_true, and_true]
  refine ⟨hberth (by decide +kernel), trivial, ?_, trivial, hberth (by decide +kernel),
    hberth (by decide +kernel), trivial⟩
  change (State.nfts _ _).isSome = true
  decide +kernel

end Mock

end Rmrk
