import Rmrk.Helpers.Budget
import Rmrk.Properties.Supply
/-!
# A burn takes a tree, within its budget

Where the children index is a forest of the NFTs there are, and the
collections count them, `nft_burn` burns what the index reaches and
nothing else, and gets through it exactly if its budget is at least the
number of NFTs on a longest way down. The order storage yields the
children in makes no difference: it is a parameter.
-/

namespace Rmrk

open Effect Relation Rmrk.Core

variable {W : Type} {s s' : State W} {x y : NftKey} {c : CollectionId} {k : ℕ}

/-! ## The property -/

/-- **The index is a forest of the NFTs there are**: an NFT is listed under
the parent its record names, where that is there; and each collection
counts its NFTs, one that is not there none. -/
structure Filed (s : State W) : Prop where
  acyclic : ∀ y, ¬ TransGen (Lists s) y y
  listed : ∀ p y, Lists s p y ↔ s.recorded y = some p ∧ (s.nfts p).isSome = true
  counted : ∀ c, (s.supply c).ncard =
    ((s.collections c).map fun col => col.nftsCount.toNat).getD 0

/-- **What the index reaches from `x` has been burned**, and counted, and
nothing else has been written. -/
structure TreeBurned (x : NftKey) (s s' : State W) : Prop where
  nfts_below : ∀ y, Below s x y → s'.nfts y = none
  nfts_else : ∀ y, ¬ Below s x y → s'.nfts y = s.nfts y
  resources_below : ∀ y, Below s x y → ∀ r, s'.resources (y, r) = none
  resources_else : ∀ y, ¬ Below s x y → ∀ r, s'.resources (y, r) = s.resources (y, r)
  children : ∀ p y, y ∈ s'.children p ↔ y ∈ s.children p ∧ ¬ Below s x p ∧ ¬ Below s x y
  collections : ∀ c col, s.collections c = some col → ∃ col', s'.collections c = some col' ∧
    col'.nftsCount.toNat + {n | Below s x (c, n)}.ncard = col.nftsCount.toNat ∧
      col'.uncounted = col.uncounted
  collections_none : ∀ c, s.collections c = none → s'.collections c = none
  unburned : s'.unburned = s.unburned

/-! ## The forest -/

namespace Filed

/-- All that is listed is there. -/
theorem live_of_lists (hs : Filed s) (h : Lists s x y) : (s.nfts y).isSome = true := by
  have hrec := ((hs.listed x y).1 h).1
  cases hy : s.nfts y with
  | some nft => rfl
  | none => simp [State.recorded, hy] at hrec

theorem live (hs : Filed s) (hx : (s.nfts x).isSome = true) (h : Below s x y) :
    (s.nfts y).isSome = true := by
  rcases ReflTransGen.cases_tail h with rfl | ⟨z, -, hzy⟩
  · exact hx
  · exact hs.live_of_lists hzy

/-- **What is reached from an NFT is a tree.** -/
theorem treeAt (hs : Filed s) (x : NftKey) : TreeAt (Lists s) x where
  unique a b y _ _ ha hb := by
    have hab := ((hs.listed a y).1 ha).1.symm.trans ((hs.listed b y).1 hb).1
    exact Option.some.inj hab
  root a ha hax := hs.acyclic x (TransGen.tail' ha hax)

/-- The collection of an NFT that is there is there. -/
theorem housed (hs : Filed s) (hx : (s.nfts x).isSome = true) : Housed s x := by
  intro y hy
  by_contra hnone
  have hcount := hs.counted y.1
  rw [Option.not_isSome_iff_eq_none.1 hnone, Option.map_none, Option.getD_none,
    Set.ncard_eq_zero] at hcount
  have hmem : y.2 ∈ s.supply y.1 := hs.live hx hy
  exact absurd (hcount ▸ hmem) (Set.notMem_empty _)

theorem exact (hs : Filed s) : Exact s := by
  intro c col hcol
  rw [hs.counted c, hcol]
  rfl

end Filed

/-! ## The burn -/

variable [Config W]

/-- **The budget is enough exactly if it is at least the height.** -/
theorem Filed.settles (hs : Filed s) (hx : (s.nfts x).isSome = true) (k : ℕ) :
    Settles (nftBurn k x) s (height (Lists s) x ≤ k) :=
  (nftBurn_settles k x s (hs.treeAt x) (hs.housed hx)).congr (height_le_iff hs.acyclic).symm

omit [Config W] in
/-- What is counted down is what is burned. -/
theorem Filed.mem_iff {l : List NftKey} (hs : Filed s) (hx : (s.nfts x).isSome = true)
    (hB : Burned {y | Below s x y} s s') (hbelow : ∀ z ∈ l, Below s x z)
    (hcount : Counted l s s') : y ∈ l ↔ Below s x y := by
  refine ⟨hbelow y, fun hy => ?_⟩
  by_contra hyl
  have hlive := hs.live hx hy
  rw [← hcount.nfts y hyl, hB.nfts_mem y hy] at hlive
  simp at hlive

/-- **What a burn that returns has done.** -/
theorem Filed.treeBurned (hs : Filed s) (hx : (s.nfts x).isSome = true)
    (h : nftBurn k x s = .ok () s') : TreeBurned x s s' := by
  have hB := nftBurn_ok h
  obtain ⟨l, hl⟩ := nftBurn_tallied h
  have hmem : ∀ y, y ∈ l ↔ Below s x y := fun y => hs.mem_iff hx hB hl.below hl.counted
  have hnodup : l.Nodup := hl.nodup_of_treeAt (hs.treeAt x)
  refine ⟨hB.nfts_mem, hB.nfts_notMem, hB.resources_mem, hB.resources_notMem, fun p y => ?_,
    fun c col hcol => ?_, fun c hc => ?_, hB.unburned⟩
  · rw [hB.mem_children p y (Set.notMem_empty p)]
    refine and_congr_right fun hy => and_congr_right fun _ => not_congr (and_iff_left ?_)
    exact ((hs.listed p y).1 hy).1
  · have hset : {n | Below s x (c, n)} = {n | (c, n) ∈ l} := by
      ext n
      exact (hmem (c, n)).symm
    refine ⟨col.less (tally l c), by rw [hl.counted.collections, hcol]; rfl, ?_, rfl⟩
    have hcovers := hs.exact.covers hnodup (fun z hz => hs.live hx (hl.below z hz)) c col hcol
    rw [hset, ncard_eq_tally hnodup]
    simp only [CollectionInfo.less, toNat_iterate_saturatingDec]
    omega
  · rw [hl.counted.collections, hc]
    rfl

/-- **A recursive burn is exact, and within its budget.** `nft_burn`
returns exactly if its budget is at least the number of NFTs on a longest
way down, and else fails with `TooManyRecursions`; where it returns it has
burned what the index reaches; and where `burn_nft` fails it has done
nothing. -/
theorem burn_exact (hs : Filed s) (hx : (s.nfts x).isSome = true) (k : UInt32) :
    ((∃ s', nftBurn k.toNat x s = .ok () s') ↔ height (Lists s) x ≤ k.toNat) ∧
      (¬ height (Lists s) x ≤ k.toNat →
        ∃ s', nftBurn k.toNat x s = .error Error.tooManyRecursions s') ∧
      (∀ s', nftBurn k.toNat x s = .ok () s' → TreeBurned x s s') ∧
      ∀ o e s', burnNft o x k s = .error e s' → s' = s := by
  have hsettles := hs.settles hx k.toNat
  refine ⟨⟨fun ⟨s', hok⟩ => ?_, hsettles.ok⟩, hsettles.error, fun s' => hs.treeBurned hx,
    fun o e s' h => transactional_error h⟩
  by_contra hdeep
  obtain ⟨s'', herror⟩ := hsettles.error hdeep
  rw [hok] at herror
  cases herror

namespace Mock

/-- The record of an NFT of `owner`'s. -/
def recordOf (owner : AccountIdOrCollectionNftTuple) : NftInfo :=
  { owner, royalty := none, metadata := [], equipped := false, pending := false
    transferable := true }

/-- An NFT of Alice's with one child. -/
def twoDeep : State Storage :=
  { genesis endowed with
    collections := fun c => if c = 0 then
      some { issuer := alice, metadata := [], max := none, symbol := [], nftsCount := 2 } else none
    nfts := fun y =>
      if y = (0, 0) then some (recordOf (.accountId alice))
      else if y = (0, 1) then some (recordOf (.collectionAndNftTuple 0 0))
      else none
    children := fun p => if p = (0, 0) then {(0, 1)} else ∅ }

theorem lists_twoDeep {p y : NftKey} : Lists twoDeep p y ↔ p = (0, 0) ∧ y = (0, 1) := by
  change y ∈ (if p = (0, 0) then {(0, 1)} else ∅ : Finset NftKey) ↔ _
  split <;> simp [*]

theorem filed_twoDeep : Filed twoDeep := by
  refine ⟨fun y hy => ?_, fun p y => ?_, fun c => ?_⟩
  · obtain ⟨z, hz, -⟩ := TransGen.head'_iff.1 hy
    obtain ⟨w, -, hw⟩ := TransGen.tail'_iff.1 hy
    have heq := (lists_twoDeep.1 hz).1.symm.trans (lists_twoDeep.1 hw).2
    exact absurd heq (by decide)
  · rw [lists_twoDeep]
    by_cases hy : y = (0, 1)
    · subst hy
      have hrec : twoDeep.recorded (0, 1) = some (0, 0) := rfl
      rw [hrec, Option.some.injEq]
      constructor
      · rintro ⟨rfl, -⟩
        exact ⟨rfl, rfl⟩
      · rintro ⟨rfl, -⟩
        exact ⟨rfl, rfl⟩
    · have hrec : twoDeep.recorded y = none := by
        by_cases hy' : y = (0, 0) <;> simp [State.recorded, twoDeep, recordOf, hy, hy']
      simp [hrec, hy]
  · by_cases hc : c = 0
    · subst hc
      have hset : twoDeep.supply 0 = {0, 1} := by
        ext n
        change (State.nfts twoDeep (0, n)).isSome = true ↔ n = 0 ∨ n = 1
        by_cases hn : n = 0 <;> by_cases hn' : n = 1 <;> simp [twoDeep, hn, hn']
      rw [hset, Set.ncard_pair (by decide)]
      rfl
    · have hset : twoDeep.supply c = ∅ := by
        refine Set.eq_empty_of_forall_notMem fun n hn => ?_
        change (State.nfts twoDeep (c, n)).isSome = true at hn
        simp [twoDeep, hc] at hn
      rw [hset, Set.ncard_empty]
      simp [twoDeep, hc]

/-- **A level too deep**: a budget of one does not get to the child. -/
theorem burn_twoDeep :
    ∃ s', nftBurn 1 (0, 0) twoDeep = .error Error.tooManyRecursions s' := by
  refine (burn_exact (x := (0, 0)) filed_twoDeep rfl 1).2.1 fun hle => ?_
  exact (height_le_iff filed_twoDeep.acyclic).1 hle (0, 1) (lists_twoDeep.2 ⟨rfl, rfl⟩)

end Mock

end Rmrk
