import Rmrk.Properties.Ways
/-!
# No NFT is stranded

An NFT can be moved or burned by its root owner only, so one whose owners
lead to no account, or through an NFT that has gone, stays where it is for
ever. A burn takes what the index reaches; what it does not reach, and
was minted to what goes, is left behind. And a mint to an NFT asks for its
root owner, not for the NFT. Nor is it enough to have a root owner: one
that he may not send he has to be able to burn.
-/

namespace Rmrk

open Relation Pointer

variable {W : Type} [Config W] {s s' : State W} {act : Act W} {h : List (State W × Act W)}
variable {x y p : NftKey} {a o : AccountId}

/-! ## The property -/

/-- **An NFT is moored**: what owns it, and what owns that, are NFTs that
are there, up to an account that is no NFT's; the lookup returns an account,
and some account can send the NFT or burn it. -/
structure Moored (s : State W) (x : NftKey) : Prop where
  live : ∀ y, Reaches s.parent x y → (s.nfts y).isSome = true
  ends : ∃ y a, Reaches s.parent x y ∧ s.owner y = some a ∧ decodeNftAccountId a = none
  lookup : ∃ a top, lookupRootOwner x s = .ok (a, top) s
  usable : Usable s x

/-- Every NFT is. -/
def AllMoored (s : State W) : Prop := ∀ x, (s.nfts x).isSome = true → Moored s x

/-- The chain of owners of a mooring, link by link. -/
inductive Anchored (s : State W) : NftKey → Prop
  | ground {x : NftKey} {a : AccountId} : (s.nfts x).isSome = true → s.owner x = some a →
      decodeNftAccountId a = none → Anchored s x
  | under {x p : NftKey} : (s.nfts x).isSome = true → s.parent x = some p → Anchored s p →
      Anchored s x

/-- What is anchored is there. -/
theorem Anchored.live (hx : Anchored s x) : (s.nfts x).isSome = true := by
  cases hx with
  | ground hlive => exact hlive
  | under hlive => exact hlive

/-- What owns it is anchored too. -/
theorem Anchored.of_parent (hx : Anchored s x) (hp : s.parent x = some p) : Anchored s p := by
  cases hx with
  | ground _ howner hord =>
      rw [State.parent_of_owner howner, hord] at hp
      cases hp
  | under _ hp' h =>
      obtain rfl := Option.some.inj (hp'.symm.trans hp)
      exact h

theorem Anchored.of_reaches (hx : Anchored s x) (h : Reaches s.parent x y) : Anchored s y := by
  induction h with
  | refl => exact hx
  | tail _ hyz ih => exact ih.of_parent hyz

/-- **Its chain ends in its root owner**, who is no NFT. -/
theorem Anchored.rootOwner (hx : Anchored s x) :
    ∃ y a, Reaches s.parent x y ∧ s.owner y = some a ∧ decodeNftAccountId a = none ∧
      RootOwner s x a := by
  induction hx with
  | ground _ howner hord =>
      exact ⟨_, _, .refl, howner, hord, (rootOwner_of_owner howner hord).2 rfl⟩
  | under _ hp _ ih =>
      obtain ⟨y, a, hy, howner, hord, hroot⟩ := ih
      exact ⟨y, a, .head hp hy, howner, hord, (rootOwner_of_parent hp).2 hroot⟩

/-- **A chain is whole after as before** where it leads through NFTs only
that stay, with their owners. -/
theorem Anchored.of_kept {K : NftKey → Prop} (hx : Anchored s x) (hK : K x)
    (hup : ∀ y p, (s.nfts y).isSome = true → K y → s.parent y = some p → K p)
    (hlive : ∀ y, K y → (s.nfts y).isSome = true → (s'.nfts y).isSome = true)
    (howner : ∀ y, K y → s'.owner y = s.owner y) : Anchored s' x := by
  induction hx with
  | ground hy ho hord => exact .ground (hlive _ hK hy) ((howner _ hK).trans ho) hord
  | @under y p hy hp _ ih =>
      have hp' : s'.parent y = some p := by rw [State.parent, howner y hK]; exact hp
      exact .under (hlive y hK hy) hp' (ih (hup y p hy hK hp))

/-- **Link by link or as a whole.** -/
theorem moored_iff : Moored s x ↔ Anchored s x ∧ Usable s x := by
  constructor
  · rintro ⟨hlive, ⟨y, a, hxy, howner, hord⟩, -, husable⟩
    refine ⟨?_, husable⟩
    clear husable
    induction hxy using ReflTransGen.head_induction_on with
    | refl => exact .ground (hlive _ .refl) howner hord
    | head hp _ ih => exact .under (hlive _ .refl) hp (ih fun z hz => hlive z (.head hp hz))
  · rintro ⟨hx, husable⟩
    obtain ⟨y, a, hy, howner, hord, r, hroot⟩ := hx.rootOwner
    refine ⟨fun z hz => (hx.of_reaches hz).live, ⟨y, a, hy, howner, hord⟩, ⟨a, r, ?_⟩, husable⟩
    exact lookupRootOwner_ok.2 ⟨hroot, rfl⟩

/-- All chains of owners are whole. -/
def AllAnchored (s : State W) : Prop := ∀ x, (s.nfts x).isSome = true → Anchored s x

/-- **All are moored exactly if all chains of owners are whole and what can
only be burned can be.** -/
theorem allMoored_iff [Items W] (hroom : Roomy s) :
    AllMoored s ↔ AllAnchored s ∧ WaysOut s := by
  have husable : ∀ x, Anchored s x → (Usable s x ↔ Unheld s x ∨ Housed s x) := by
    intro x hx
    obtain ⟨-, a, -, -, -, hroot⟩ := hx.rootOwner
    exact usable_iff hroot hroom
  constructor
  · intro hs
    have hanchored : AllAnchored s := fun x hx => (moored_iff.1 (hs x hx)).1
    refine ⟨hanchored, fun z hz => ?_⟩
    have hways := (husable z (hanchored z hz.there)).1 (hs z hz.there).usable
    exact hways.resolve_left hz.held
  · rintro ⟨hanchored, hways⟩ x hx
    refine moored_iff.2 ⟨hanchored x hx, (husable x (hanchored x hx)).2 ?_⟩
    by_cases hmov : Unheld s x
    · exact .inl hmov
    · exact .inr (hways x ⟨hx, hmov⟩)

/-! ## The condition -/

/-- `a` is no NFT's account, or that of an NFT that is there and not below
`x`. -/
def Berth (s : State W) (x : NftKey) (a : AccountId) : Prop :=
  ∀ p, decodeNftAccountId a = some p → (s.nfts p).isSome = true ∧ ¬ Reaches s.parent p x

/-- What the index reaches from `x` owns nothing but what the index
reaches. -/
def TakesAll (s : State W) (x : NftKey) : Prop :=
  ∀ y, (s.nfts y).isSome = true → ¬ Below s x y → ∀ p, s.parent y = some p → ¬ Below s x p

/-- **A step breaks no chain of owners**: an NFT is minted to an NFT that is
there, what is destroyed owns nothing that is not, and an account named as
the owner of an NFT, if it is an NFT's, is that of one that is there and
not below. -/
def KeepsMoorings (s : State W) : Act W → Prop
  | .signed o (.mintNft owner c ..) => Berth s (c, s.nextNftId c) (owner.getD o)
  | .signed _ (.mintNftDirectlyToNft p ..) => (s.nfts p).isSome = true
  | .signed _ (.send x (.accountId a)) => Berth s x a
  | .signed _ (.acceptNft x (.accountId a)) => Berth s x a
  | .signed o (.buy x _) => Berth s x o
  | .signed _ (.acceptOffer x offerer) =>
      ∀ offer, s.offers (x, offerer) = some offer → Berth s x offer.maker
  | .signed _ (.burnNft x _) | .signed _ (.rejectNft x) => TakesAll s x
  | _ => True

theorem keepsMoorings_of_still (h : act.still = true) : KeepsMoorings s act := by
  cases act with
  | between => trivial
  | signed o c => cases c <;> trivial

/-! ## One step -/

/-- An NFT named as an NFT has been checked. -/
theorem Target.berth {cid : CollectionId} {nid : NftId}
    (h : Target s x (.collectionAndNftTuple cid nid) a) : Berth s x a := by
  obtain ⟨rfl, hlive, hne⟩ := h
  intro p hp
  rw [decodeNftAccountId_nftToAccountId, Option.some.injEq] at hp
  exact hp ▸ ⟨hlive, hne⟩

/-- **A write of an owner leaves all chains whole exactly if the owner is a
berth.** -/
theorem anchored_of_owner (hs : AllAnchored s)
    (howner : s'.owner = Function.update s.owner x (some a))
    (hlive : ∀ z, (s'.nfts z).isSome = true ↔ (s.nfts z).isSome = true ∨ z = x) :
    AllAnchored s' ↔ Berth s x a := by
  have hparent := State.parent_update howner
  have hx : s'.parent x = decodeNftAccountId a := State.parent_of_owner (by simp [howner])
  have hne : ∀ {z}, z ≠ x → s'.parent z = s.parent z := fun hz => by simp [hparent, hz]
  constructor
  · intro hs' p hp
    have hxp : s'.parent x = some p := hx.trans hp
    have hanch : Anchored s' x := hs' x ((hlive x).2 (.inr rfl))
    -- a way back to `x` would be a cycle
    have hback : ¬ Reaches s.parent p x := by
      intro hpx
      have hpx' : Reaches s'.parent p x := by rw [hparent]; exact reaches_update_self.2 hpx
      obtain ⟨-, b, -, -, -, hroot⟩ := hanch.rootOwner
      exact hroot.not_transGen (TransGen.head' hxp hpx')
    rcases (hlive p).1 (hanch.of_parent hxp).live with hp' | rfl
    · exact ⟨hp', hback⟩
    · exact absurd .refl hback
  · intro hb
    -- an NFT that is not below `x` keeps its mooring
    have hoff : ∀ y, Anchored s y → ¬ Reaches s.parent y x → Anchored s' y := by
      intro y hy hyx
      refine hy.of_kept (K := fun z => ¬ Reaches s.parent z x) hyx
        (fun z q _ hzx hq hqx => hzx (.head hq hqx)) (fun z _ hz => (hlive z).2 (.inl hz)) ?_
      intro z hzx
      have hne' : z ≠ x := by rintro rfl; exact hzx .refl
      rw [howner, Function.update_of_ne hne']
    have hself : Anchored s' x := by
      cases hd : decodeNftAccountId a with
      | none => exact .ground ((hlive x).2 (.inr rfl)) (by simp [howner]) hd
      | some p =>
          obtain ⟨hp, hpx⟩ := hb p hd
          exact .under ((hlive x).2 (.inr rfl)) (hx.trans hd) (hoff p (hs p hp) hpx)
    have hall : ∀ y, Anchored s y → Anchored s' y := by
      intro y hy
      induction hy with
      | @ground y b hy ho hord =>
          by_cases hyx : y = x
          · exact hyx ▸ hself
          · refine .ground ((hlive y).2 (.inl hy)) ?_ hord
            rw [howner, Function.update_of_ne hyx, ho]
      | @under y q hy hq _ ih =>
          by_cases hyx : y = x
          · exact hyx ▸ hself
          · exact .under ((hlive y).2 (.inl hy)) ((hne hyx).trans hq) ih
    intro z hz
    rcases (hlive z).1 hz with hz | rfl
    · exact hall z (hs z hz)
    · exact hself

/-- **What is destroyed leaves all chains whole exactly if it owned nothing
else.** -/
theorem Destroyed.anchored_iff {q : Option NftKey} (hs : AllAnchored s)
    (h : Destroyed x q s s') (howner : ∀ z, z ≠ x → s'.owner z = s.owner z) :
    AllAnchored s' ↔ TakesAll s x := by
  have hparent : ∀ {z}, ¬ Below s x z → s'.parent z = s.parent z := fun {z} hz => by
    have hzx : z ≠ x := by rintro rfl; exact hz .refl
    simp only [State.parent, howner z hzx]
  constructor
  · intro hs' y hy hby p hp hbp
    have hp' := ((hs' y (h.nfts_else y hby ▸ hy)).of_parent ((hparent hby).trans hp)).live
    simp [h.nfts_below p hbp] at hp'
  · intro ht z hz
    have hbz : ¬ Below s x z := fun hb => by simp [h.nfts_below z hb] at hz
    refine (hs z (h.nfts_else z hbz ▸ hz)).of_kept (K := fun y => ¬ Below s x y) hbz
      (fun y p hy hby hp => ht y hy hby p hp) (fun y hby hy => h.nfts_else y hby ▸ hy) ?_
    intro y hby
    have hyx : y ≠ x := by rintro rfl; exact hby .refl
    exact howner y hyx

/-- What leaves the owners and what is there alone leaves all chains whole. -/
theorem anchored_of_eq (hs : AllAnchored s)
    (howner : s'.owner = s.owner) (hnfts : ∀ z, s'.nfts z = none ↔ s.nfts z = none) :
    AllAnchored s' := by
  intro z hz
  have hlive : ∀ z, (s'.nfts z).isSome = true ↔ (s.nfts z).isSome = true := by
    intro z
    rw [Option.isSome_iff_ne_none, Option.isSome_iff_ne_none, ne_eq, ne_eq, hnfts]
  exact (hs z ((hlive z).1 hz)).of_kept (K := fun _ => True) trivial (fun _ _ _ _ _ => trivial)
    (fun y _ hy => (hlive y).2 hy) fun y _ => by rw [howner]

/-- An NFT that is there and moored is a berth for what is not there. -/
theorem berth_iff (hs : AllAnchored s) (hx : s.nfts x = none) :
    Berth s x (nftToAccountId p) ↔ (s.nfts p).isSome = true := by
  unfold Berth
  simp only [decodeNftAccountId_nftToAccountId, Option.some.injEq, forall_eq']
  refine ⟨And.left, fun hp => ⟨hp, fun hpx => ?_⟩⟩
  have hlive := ((hs p hp).of_reaches hpx).live
  simp [hx] at hlive

omit [Config W] in
theorem isSome_of_insert {nft nft' : NftInfo} (hx : s.nfts x = some nft)
    (hnfts : s'.nfts = s.nfts.insert x nft') (z : NftKey) :
    (s'.nfts z).isSome = true ↔ (s.nfts z).isSome = true ∨ z = x := by
  rw [hnfts]
  by_cases hz : z = x
  · subst hz; simp [hx]
  · simp [hz]

/-- **One step leaves all chains whole exactly if it meets the
condition.** -/
theorem anchored_step (hsound : Sound s) (hs : AllAnchored s) (hstep : Step s act s') :
    AllAnchored s' ↔ KeepsMoorings s act := by
  have heq : s'.owner = s.owner → (∀ z, s'.nfts z = none ↔ s.nfts z = none) →
      (AllAnchored s' ↔ True) := fun ho hn =>
    iff_of_true (anchored_of_eq hs ho hn) trivial
  have hsame : s'.nfts = s.nfts → ∀ z, s'.nfts z = none ↔ s.nfts z = none := fun hn z => by rw [hn]
  cases hstep.outcome with
  | silent hstill h => simpa [keepsMoorings_of_still hstill] using heq h.owner (hsame h.nfts)
  | noted hstill h => simpa [keepsMoorings_of_still hstill] using heq h.owner (hsame h.nfts)
  | @mintNft o owner c _ _ _ _ _ n _ _ _ h =>
      obtain rfl : s.nextNftId c = n := h.next
      refine anchored_of_owner hs h.owner fun z => ?_
      rw [h.nfts]
      by_cases hz : z = (c, s.nextNftId c) <;> simp [hz]
  | @mintNftDirectlyToNft o p c _ _ _ _ _ n _ _ _ _ _ h =>
      refine Iff.trans (anchored_of_owner hs h.owner fun z => ?_)
        (berth_iff hs (h.absent hsound).nfts)
      rw [h.nfts]
      by_cases hz : z = (c, n) <;> simp [hz]
  | @send o x newOwner old new nft nft' h =>
      rw [anchored_of_owner hs h.owner (isSome_of_insert h.nfts_eq h.nfts)]
      cases newOwner with
      | accountId id => rw [show new = id from h.target]; rfl
      | collectionAndNftTuple cid nid => exact iff_of_true h.target.berth trivial
  | @acceptNft o x newOwner new nft h =>
      rw [anchored_of_owner hs h.owner (isSome_of_insert h.nfts_eq h.nfts)]
      cases newOwner with
      | accountId id => rw [show new = id from h.target]; rfl
      | collectionAndNftTuple cid nid => exact iff_of_true h.target.berth trivial
  | burnNft _ h howner =>
      exact h.anchored_iff hs fun z hz => by rw [howner, Function.update_of_ne hz]
  | rejectNft _ _ h howner => exact h.anchored_iff hs fun z _ => by rw [howner]
  | unequip h => exact heq h.owner fun z => by rw [h.nfts, StorageMap.mutate_eq_none_iff]
  | equip h => exact heq h.owner fun z => by rw [h.nfts, StorageMap.mutate_eq_none_iff]
  | list _ _ _ h => exact heq h.owner (hsame h.nfts)
  | unlist _ h => exact heq h.owner (hsame h.nfts)
  | buy _ _ _ h => exact anchored_of_owner hs h.owner (isSome_of_insert h.nfts_eq h.nfts)
  | acceptOffer hoffer h =>
      rw [anchored_of_owner hs h.owner (isSome_of_insert h.nfts_eq h.nfts)]
      simp [KeepsMoorings, hoffer]

/-! ## Every run -/

/-- At genesis there is nothing. -/
theorem secure_genesis (h : Genesis s) : (AllAnchored s ∧ WaysOut s) ∧ Trails s := by
  refine ⟨⟨fun x hx => ?_, fun z hz => ?_⟩, trails_genesis h⟩
  all_goals obtain ⟨w, -, -, rfl⟩ := h
  · simp [genesis] at hx
  · simpa [genesis] using hz.there

/-- What the index leads to, and the chains of owners, over a run. -/
theorem secure_throughout_iff (hr : IsRun h s) :
    Run.Throughout (fun s => AllAnchored s ∧ WaysOut s) h s ↔
      ∀ e ∈ h, KeepsMoorings e.1 e.2 ∧ KeepsWays e.1 e.2 := by
  refine Run.throughout_iff_of (Q := Trails)
    (C := fun s act => KeepsMoorings s act ∧ KeepsWays s act) (fun s => secure_genesis) ?_ hr
  rintro s act s' hreach ⟨hanchored, hways⟩ htrails hstep
  refine ⟨?_, fun hs' => ?_⟩
  · exact and_congr (anchored_step (Reachable.sound hreach) hanchored hstep)
      (ways_step htrails hways hstep)
  · have hsound' := Reachable.sound (hreach.next hstep)
    refine trails_step hsound' htrails hstep.outcome fun x p hx hp => ?_
    exact ((hs'.1 x hx).of_parent hp).live

/-- **Moorings over a run.** Where the index has less than `2 ^ 32 - 1`
entries, all NFTs are moored in all states of a run exactly if no call of it
breaks a chain of owners or closes a way out. -/
theorem moored_throughout_iff [Items W] (hr : IsRun h s) (hroom : Run.Throughout Roomy h s) :
    Run.Throughout AllMoored h s ↔
      ∀ e ∈ h, KeepsMoorings e.1 e.2 ∧ KeepsWays e.1 e.2 := by
  rw [← secure_throughout_iff hr]
  exact and_congr (allMoored_iff hroom.1)
    (forall₂_congr fun e he => allMoored_iff (hroom.2 e he))

/-! ## Runs that name ordinary accounts -/

/-- The accounts a call is given. -/
def Call.accounts : Call W → List AccountId
  | .mintNft owner _ rr .. => owner.toList ++ rr.toList
  | .mintNftDirectlyToNft _ _ rr .. => rr.toList
  | .send _ (.accountId a) | .acceptNft _ (.accountId a) => [a]
  | .changeCollectionIssuer _ source | .changeBaseIssuer _ source =>
      match Config.lookup source with
      | .ok a => [a]
      | .error _ => []
  | .acceptOffer _ offerer => [offerer]
  | _ => []

/-- The call of a step is given no NFT's account. -/
def NamesOrdinary : Act W → Prop
  | .signed _ c => ∀ a ∈ c.accounts, decodeNftAccountId a = none
  | .between .. => True

namespace Mock

/-- Alice burns the NFT she minted another to. -/
def burnedParent : List Extrinsic :=
  [(alice, .burnNft (0, 0) 10), (alice, mintInto (0, 0)), (alice, mintTo alice),
    (alice, newCollection)]

/-- **A stranded NFT**: it is owned by one that has gone. -/
theorem not_moored_of_run : ¬ ∀ (h : List (State Storage × Act Storage)) (s : State Storage),
    IsRun h s → (∀ e ∈ h, NamesOrdinary e.2) → AllMoored s := by
  intro hall
  have halice : decodeNftAccountId alice = none := by decide +kernel
  have hord : ∀ e ∈ history burnedParent, NamesOrdinary e.2 := by
    simp [burnedParent, history, NamesOrdinary, Call.accounts, mintInto, mintTo, newCollection,
      halice]
  have hrun : IsRun (history burnedParent) (replay burnedParent) := isRun_replay (by decide +kernel)
  have hs := hall _ _ hrun hord
  have hparent : (replay burnedParent).parent (0, 1) = some (0, 0) := by decide +kernel
  have hlive := (hs (0, 1) (by decide +kernel)).live (0, 0) (.single hparent)
  exact absurd hlive (by decide +kernel)

/-- Of two NFTs of hers Alice sends one into the other, mints a third to
that, and lists what is around them. -/
def nested : List Extrinsic :=
  [(alice, .list (0, 0) 100 none), (alice, mintInto (0, 1)),
    (alice, .send (0, 1) (.collectionAndNftTuple 0 0)), (alice, mintTo alice),
    (alice, mintTo alice), (alice, newCollection)]

theorem moored_nested : Run.Throughout AllMoored (history nested) (replay nested) := by
  have hr : IsRun (history nested) (replay nested) := isRun_replay (by decide +kernel)
  refine (moored_throughout_iff hr (roomy_of_length hr (by decide))).2 ?_
  simp only [nested, history, List.forall_mem_cons, List.not_mem_nil, false_imp_iff,
    implies_true, and_true]
  have halice : ∀ s x, Berth (W := Storage) s x alice := by
    intro s x p hp
    rw [show decodeNftAccountId alice = none by decide +kernel] at hp
    cases hp
  refine ⟨⟨trivial, ?_⟩, ⟨?_, trivial⟩, ⟨trivial, ?_⟩, ⟨halice _ _, trivial⟩,
    ⟨halice _ _, trivial⟩, trivial, trivial⟩
  · -- what is listed leads to the one it holds, and no further
    intro y hy
    rcases Relation.ReflTransGen.cases_head hy with rfl | ⟨b, hb, hby⟩
    · decide +kernel
    · obtain rfl : b = (0, 1) := by
        have hchildren : (replay nested.tail).children (0, 0) = {(0, 1)} := by decide +kernel
        exact Finset.mem_singleton.1 (hchildren ▸ hb)
      rw [eq_of_below (by decide +kernel) hby]
      decide +kernel
  · change (State.nfts _ _).isSome = true
    decide +kernel
  · -- what is sent leads to nothing but itself
    intro p _ z _ _ y hy
    rw [eq_of_below (by decide +kernel) hy]
    decide +kernel

end Mock

end Rmrk
