import Mathlib.Data.Set.Card
import Rmrk.Helpers.Issued
import Rmrk.Helpers.Orderly
import Rmrk.Mock.Replay
/-!
# The count of a collection

`nft_burn` takes one off the count of a collection each time it calls
itself, and it calls itself once for each entry of the index it comes to.
So the count is that of the NFTs there are as long as what is burned is
there, and no index leads to one NFT twice.
-/

namespace Rmrk

open Counter Effect Relation Rmrk.Core

variable {W : Type} {s s' t : State W} {x : NftKey} {l : List NftKey} {c : CollectionId}

/-! ## The property -/

/-- The identifiers of a collection that have a record. -/
def State.supply (s : State W) (c : CollectionId) : Set NftId := {n | (s.nfts (c, n)).isSome = true}

/-- **Every collection counts the NFTs it has.** -/
def Exact (s : State W) : Prop :=
  ∀ c col, s.collections c = some col → col.nftsCount.toNat = (s.supply c).ncard

variable [Config W] {act : Act W} {h : List (State W × Act W)}

/-- **The decrement does not saturate**: one that fails at zero would have
done the same. -/
def Unsaturated (s : State W) : Act W → Prop
  | .signed _ (.burnNft x maxBurns) => ∀ s', nftBurn maxBurns.toNat x s = .ok () s' →
      burnWith checkedDec maxBurns.toNat x s = .ok () s'
  | .signed _ (.rejectNft x) => ∀ s',
      nftBurn (Config.maxRecursions W).toNat x (s.disowned x) = .ok () s' →
        burnWith checkedDec (Config.maxRecursions W).toNat x (s.disowned x) = .ok () s'
  | _ => True

/-- **What a burn or a rejection comes to is there, and it comes to it
once.** The entries of the NFT itself that it takes out before do not
count. -/
def CountsOnce (s : State W) (act : Act W) : Prop :=
  ∀ x, act.destroys = some x →
    (∀ y, ReflTransGen (Drains (act.burnsIn s) x) x y → (s.nfts y).isSome = true) ∧
      TreeAt (Drains (act.burnsIn s) x) x

/-! ## Counting a list -/

omit [Config W] in
/-- The NFTs of a list are as many as the list says, where it names each
once. -/
theorem ncard_eq_tally (hl : l.Nodup) : {n : NftId | (c, n) ∈ l}.ncard = tally l c := by
  have hmem : {n : NftId | (c, n) ∈ l} =
      ↑((l.filter fun y => decide (y.1 = c)).map Prod.snd).toFinset := by
    ext n
    simp
  have hnodup : ((l.filter fun y => decide (y.1 = c)).map Prod.snd).Nodup := by
    refine (hl.filter _).map_on fun y hy z hz hyz => ?_
    simp only [List.mem_filter, decide_eq_true_eq] at hy hz
    exact Prod.ext (hy.2.trans hz.2.symm) hyz
  rw [hmem, Set.ncard_coe_finset, List.toFinset_card_of_nodup hnodup, List.length_map, tally,
    List.countP_eq_length_filter]

omit [Config W] in
theorem subset_supply (hlive : ∀ z ∈ l, (s.nfts z).isSome = true) :
    {n : NftId | (c, n) ∈ l} ⊆ s.supply c :=
  fun n hn => hlive (c, n) hn

omit [Config W] in
/-- No count runs out on NFTs that are there, each counted once. -/
theorem Exact.covers (hs : Exact s) (hl : l.Nodup) (hlive : ∀ z ∈ l, (s.nfts z).isSome = true) :
    Covers s l := by
  intro c col hcol
  rw [hs c col hcol, ← ncard_eq_tally hl]
  exact Set.ncard_le_ncard (subset_supply hlive)

/-! ## One step -/

omit [Config W] in
theorem supply_of_presence (h : SamePresence s s') : s'.supply c = s.supply c := by
  ext n
  change (s'.nfts (c, n)).isSome = true ↔ (s.nfts (c, n)).isSome = true
  rw [← not_iff_not, Bool.not_eq_true, Bool.not_eq_true, Option.isSome_eq_false_iff,
    Option.isSome_eq_false_iff, Option.isNone_iff_eq_none, Option.isNone_iff_eq_none]
  exact h.nfts (c, n)

/-- A mint adds an NFT, which was not there, and counts it. -/
theorem Exact.counting {d : CollectionId} (hs : Exact s) (hsound : Sound s)
    (h : Counting d s s') : Exact s' := by
  intro c col' hcol'
  obtain ⟨col, hcol, -, hroom, hcols⟩ := h.collections
  obtain ⟨nft, hnfts⟩ := h.nfts
  have hnone : s.nfts (d, s.nextNftId d) = none :=
    (hsound.absent (d, s.nextNftId d) (UInt32.le_refl _)).nfts
  rw [hcols] at hcol'
  rcases StorageMap.insert_eq_some_iff.1 hcol' with ⟨rfl, rfl⟩ | ⟨hc, hcol'⟩
  · have hsupply : s'.supply c = insert (s.nextNftId c) (s.supply c) := by
      ext n
      rw [Set.mem_insert_iff]
      change (s'.nfts (c, n)).isSome = true ↔ n = s.nextNftId c ∨ (s.nfts (c, n)).isSome = true
      rw [hnfts]
      by_cases hn : n = s.nextNftId c
      · subst hn; simp
      · rw [StorageMap.insert_of_ne (fun heq => hn (congrArg Prod.snd heq))]
        simp [hn]
    have hfresh : s.nextNftId c ∉ s.supply c := by
      change ¬ (s.nfts (c, s.nextNftId c)).isSome = true
      simp [hnone]
    rw [hsupply, Set.ncard_insert_of_notMem hfresh, ← hs c col hcol]
    exact toNat_succ_of_room hroom
  · have hsupply : s'.supply c = s.supply c := by
      ext n
      change (s'.nfts (c, n)).isSome = true ↔ (s.nfts (c, n)).isSome = true
      rw [hnfts, StorageMap.insert_of_ne fun heq => hc (congrArg Prod.fst heq)]
    rw [hsupply]
    exact hs c col' hcol'

omit [Config W] in
/-- **A burn of what is there, each once, counts it down.** -/
theorem Exact.countingDown (hs : Exact s) (h : CountingDown x t s s')
    (hlive : ∀ y, ReflTransGen (Drains t x) x y → (s.nfts y).isSome = true)
    (htree : TreeAt (Drains t x) x) : Exact s' := by
  intro c col' hcol'
  obtain ⟨l, hreached, hcount, hnodup⟩ := h.tallied
  have hl := hnodup htree
  have hsupply : s'.supply c = s.supply c \ {n | (c, n) ∈ l} := by
    ext n
    change (s'.nfts (c, n)).isSome = true ↔ (s.nfts (c, n)).isSome = true ∧ (c, n) ∉ l
    by_cases hn : (c, n) ∈ l
    · simp [h.nfts_below _ (h.below (hreached _ hn)), hn]
    · simp [hcount.nfts _ hn, hn]
  rw [hcount.collections, Option.map_eq_some_iff] at hcol'
  obtain ⟨col, hcol, rfl⟩ := hcol'
  rw [hsupply, Set.ncard_sdiff (subset_supply fun z hz => hlive z (hreached z hz)),
    ← hs c col hcol, ncard_eq_tally hl]
  exact toNat_iterate_saturatingDec

/-- Nothing has been issued of a new collection. -/
theorem Exact.founded (hs : Exact s) (hr : Reachable s) (h : Founded s s') : Exact s' := by
  intro c col' hcol'
  obtain ⟨col, hzero, hcols⟩ := h.collections
  rw [supply_of_presence h.presence]
  rw [hcols] at hcol'
  rcases StorageMap.insert_eq_some_iff.1 hcol' with ⟨rfl, rfl⟩ | ⟨-, hcol'⟩
  · have hempty : s.supply s.collectionIndex = ∅ := by
      refine Set.eq_empty_of_forall_notMem fun n hn => ?_
      have hfresh := (Reachable.orderly hr).fresh s.collectionIndex le_rfl
      have habsent := hr.sound.absent (s.collectionIndex, n) (hfresh ▸ UInt32.zero_le)
      change (s.nfts (s.collectionIndex, n)).isSome = true at hn
      simp [habsent.nfts] at hn
    rw [hzero, hempty, Set.ncard_empty]
    rfl
  · exact hs c col' hcol'

/-- **Every step that meets the condition keeps the counts exact.** -/
theorem Exact.step (hr : Reachable s) (hs : Exact s) (hc : CountsOnce s act)
    (hstep : Step s act s') : Exact s' := by
  rcases hstep.registered.split with ⟨c, -, h⟩ | ⟨-, h⟩ | ⟨x, hact, h⟩ | ⟨-, h⟩
  · exact hs.counting hr.sound h
  · exact hs.founded hr h
  · obtain ⟨hlive, htree⟩ := hc x hact
    exact hs.countingDown h hlive htree
  · intro c col' hcol'
    obtain ⟨col, hcol, hcount, -⟩ := h.collections c col' hcol'
    rw [hcount, supply_of_presence h.presence]
    exact hs c col hcol

/-- A burn that comes to what is there, once, takes no count below
zero. -/
theorem Exact.checked {t t' : State W} {k : ℕ} (hs : Exact t)
    (hlive : ∀ y, ReflTransGen (Drains t x) x y → (t.nfts y).isSome = true)
    (htree : TreeAt (Drains t x) x) (h : nftBurn k x t = .ok () t') :
    burnWith checkedDec k x t = .ok () t' := by
  obtain ⟨l, hl⟩ := nftBurn_tallied h
  exact hl.checked (hs.covers (hl.nodup htree) fun z hz => hlive z (hl.reached z hz))

theorem nfts_disowned : (s.disowned x).nfts = s.nfts := by
  unfold State.disowned
  split <;> rfl

theorem Exact.disowned (hs : Exact s) : Exact (s.disowned x) := by
  unfold State.disowned
  split <;> exact hs

theorem Exact.unsaturated (hs : Exact s) (hc : CountsOnce s act) : Unsaturated s act := by
  unfold Unsaturated
  split
  · next o y k =>
      obtain ⟨hlive, htree⟩ := hc y rfl
      exact fun s' h => hs.checked hlive htree h
  · next o y =>
      obtain ⟨hlive, htree⟩ := hc y rfl
      refine fun s' h => hs.disowned.checked (fun z hz => ?_) htree h
      rw [nfts_disowned]
      exact hlive z hz
  · trivial

/-! ## Every run -/

/-- **Counts over a run.** Where every burn and every rejection comes to
what is there, and to each once, every collection counts the NFTs it has
and no decrement saturates. -/
theorem supply_exact (hr : IsRun h s) (hm : Run.Meets (fun _ => CountsOnce) h) :
    Run.Throughout Exact h s ∧ ∀ e ∈ h, Unsaturated e.1 e.2 := by
  refine Run.invariant_of_meets
    (P := fun h s => Run.Throughout Exact h s ∧ ∀ e ∈ h, Unsaturated e.1 e.2)
    (fun s h0 => ?_) (fun h s act s' hr hP hc hstep => ?_) hr hm
  · obtain ⟨w, -, -, rfl⟩ := h0
    exact ⟨⟨by simp [Exact, genesis], by simp⟩, by simp⟩
  · obtain ⟨⟨hs, hh⟩, hu⟩ := hP
    exact ⟨⟨hs.step hr.reachable hc hstep, List.forall_mem_cons.2 ⟨hs, hh⟩⟩,
      List.forall_mem_cons.2 ⟨hs.unsaturated hc, hu⟩⟩

namespace Mock

/-- Bob rejects the NFT Alice minted to him, and burns it: it still has an
owner in `pallet_uniques`. -/
def rejectedThenBurned : List Extrinsic :=
  [(bob, .burnNft (0, 0) 10), (bob, .rejectNft (0, 0)), (alice, mintTo alice),
    (alice, mintTo bob), (alice, newCollection)]

/-- **A count too low**: of two NFTs one has been burned, twice. -/
theorem not_exact_of_run : ¬ ∀ (h : List (State Storage × Act Storage)) (s : State Storage),
    IsRun h s → Run.Throughout Exact h s ∧ ∀ e ∈ h, Unsaturated e.1 e.2 := by
  intro hall
  have hs : Exact (replay rejectedThenBurned) :=
    (hall _ _ (isRun_replay (by decide +kernel))).1.1
  have hcount : ((replay rejectedThenBurned).collections 0).map CollectionInfo.nftsCount =
      some 0 := by
    decide +kernel
  obtain ⟨col, hcol, hzero⟩ := Option.map_eq_some_iff.1 hcount
  have hncard := hs 0 col hcol
  rw [hzero, eq_comm, show (0 : UInt32).toNat = 0 from rfl, Set.ncard_eq_zero] at hncard
  have hlive : (1 : NftId) ∈ (replay rejectedThenBurned).supply 0 := by
    change (State.nfts _ _).isSome = true
    decide +kernel
  exact absurd (hncard ▸ hlive) (Set.notMem_empty _)

/-- Of two collections Alice puts an NFT of the second into one of the
first, a second of the first into that, and burns the one around them. -/
def nestedBurn : List Extrinsic :=
  [(alice, .burnNft (0, 0) 10), (alice, .send (0, 1) (.collectionAndNftTuple 1 0)),
    (alice, .send (1, 0) (.collectionAndNftTuple 0 0)), (alice, mintTo alice),
    (alice, .mintNft none 1 none none [] true none), (alice, mintTo alice), (alice, newCollection),
    (alice, newCollection)]

theorem countsOnce_nestedBurn :
    CountsOnce (replay nestedBurn.tail) (.signed alice (.burnNft (0, 0) 10)) := by
  intro x hx
  obtain rfl : (0, 0) = x := Option.some.inj hx
  have hone : (replay nestedBurn.tail).children (0, 0) = {(1, 0)} := by decide +kernel
  have htwo : (replay nestedBurn.tail).children (1, 0) = {(0, 1)} := by decide +kernel
  have hleaf : (replay nestedBurn.tail).children (0, 1) = ∅ := by decide +kernel
  have hR : ∀ a b, Drains (replay nestedBurn.tail) (0, 0) a b →
      b ∈ (replay nestedBurn.tail).children a := fun _ _ => Drains.lists
  change (∀ y, ReflTransGen (Drains (replay nestedBurn.tail) (0, 0)) (0, 0) y → _) ∧
    TreeAt (Drains (replay nestedBurn.tail) (0, 0)) (0, 0)
  generalize Drains (replay nestedBurn.tail) (0, 0) = R at hR ⊢
  have hfirst : ∀ b, R (0, 0) b → b = (1, 0) := fun b hb =>
    Finset.mem_singleton.1 (hone ▸ hR _ _ hb)
  have hsecond : ∀ b, R (1, 0) b → b = (0, 1) := fun b hb =>
    Finset.mem_singleton.1 (htwo ▸ hR _ _ hb)
  have hlast : ∀ b, ¬ R (0, 1) b := fun b hb => Finset.notMem_empty b (hleaf ▸ hR _ _ hb)
  -- what is reached, and from where
  have hfrom : ∀ y, ReflTransGen R (1, 0) y → y = (1, 0) ∨ y = (0, 1) := fun y hy =>
    (reaches_of_only hsecond hy).imp id fun hy => reaches_of_leaf hlast hy
  constructor
  · intro y hy
    rcases reaches_of_only hfirst hy with rfl | hy
    · decide +kernel
    · rcases hfrom y hy with rfl | rfl
      · decide +kernel
      · decide +kernel
  · refine .of_only hfirst (.of_only hsecond (.of_leaf hlast) fun hback => ?_) fun hback => ?_
    · exact absurd (reaches_of_leaf hlast hback) (by decide)
    · rcases hfrom _ hback with h | h <;> exact absurd h (by decide)

theorem exact_nestedBurn :
    Run.Throughout Exact (history nestedBurn) (replay nestedBurn) ∧
      ∀ e ∈ history nestedBurn, Unsaturated e.1 e.2 := by
  refine supply_exact (isRun_replay (by decide +kernel)) ⟨countsOnce_nestedBurn, ?_⟩
  refine Run.meets_iff.2 fun e he x hx => ?_
  -- nothing else is burned
  simp only [history, List.mem_cons, List.not_mem_nil, or_false] at he
  rcases he with rfl | rfl | rfl | rfl | rfl | rfl | rfl <;> exact nomatch hx

end Mock

end Rmrk
