import Rmrk.Helpers.Issued
import Rmrk.Mock.Replay
/-!
# The children index

`Children` lists NFTs under NFTs, for `nft_burn` to follow. It is meant to
be ownership read backwards. `send` and `reject_nft` keep it so whatever
they are given; the two mints, `accept_nft` and `burn_nft` do not, and a
run keeps it exactly if none of them does what it has no entry for.
-/

namespace Rmrk

open Relation Pointer

variable {W : Type} [Config W] {s s' : State W} {act : Act W} {h : List (State W × Act W)}
variable {x p : NftKey} {a : AccountId}

/-- **The index is the inverse of ownership**, so that an NFT is listed
under at most one. -/
structure Indexed (s : State W) : Prop where
  mem_children : ∀ p x, x ∈ s.children p ↔
    (s.nfts x).isSome = true ∧ s.owner x = some (nftToAccountId p)
  unique : ∀ p q x, x ∈ s.children p → x ∈ s.children q → p = q

/-- The one half has the other. -/
theorem indexed_iff : Indexed s ↔
    ∀ p x, x ∈ s.children p ↔ (s.nfts x).isSome = true ∧ s.parent x = some p := by
  refine ⟨fun hs p x => by rw [hs.mem_children, State.parent_eq_some_iff], fun hs => ⟨?_, ?_⟩⟩
  · intro p x
    rw [hs, State.parent_eq_some_iff]
  · intro p q x hp hq
    exact Option.some.inj (((hs p x).1 hp).2.symm.trans ((hs q x).1 hq).2)

/-- **No NFT changes its parent behind the index**: nothing is minted to an
NFT, what is accepted stays under the parent it has, and what is burned
has its parent on record. -/
def KeepsIndex (s : State W) : Act W → Prop
  | .signed o (.mintNft owner ..) => decodeNftAccountId (owner.getD o) = none
  | .signed _ (.mintNftDirectlyToNft ..) => False
  | .signed _ (.acceptNft x newOwner) => decodeNftAccountId newOwner.account = s.parent x
  | .signed _ (.burnNft x _) =>
      (s.nfts x).isSome = true → ∀ p, s.parent x = some p → s.recorded x = some p
  | _ => True

theorem keepsIndex_of_still (h : act.still = true) : KeepsIndex s act := by
  cases act with
  | between => trivial
  | signed o c => cases c <;> trivial

/-! ## One step -/

theorem indexed_of_eq (hs : Indexed s) (hchildren : s'.children = s.children)
    (howner : s'.owner = s.owner) (hnfts : ∀ z, s'.nfts z = none ↔ s.nfts z = none) :
    Indexed s' where
  mem_children p x := by
    rw [hchildren, howner, hs.mem_children, Option.isSome_iff_ne_none, Option.isSome_iff_ne_none,
      ne_eq, ne_eq, hnfts]
  unique p q x := by rw [hchildren]; exact hs.unique p q x

/-- A mint makes no entry, and needs none if it is not to an NFT. -/
theorem Minted.indexed_iff {nft : NftInfo} (hsound : Sound s) (hs : Indexed s)
    (h : Minted x a nft s s') : Indexed s' ↔ decodeNftAccountId a = none := by
  rw [Rmrk.indexed_iff, Option.eq_none_iff_forall_ne_some]
  have hx : s'.parent x = decodeNftAccountId a := State.parent_of_owner (by simp [h.owner])
  constructor
  · intro hs' p hp
    have := (hs' p x).2 ⟨by simp [h.nfts], hx.trans hp⟩
    rw [h.children] at this
    exact (h.absent hsound).unlisted p this
  · intro ha p z
    rw [h.children]
    by_cases hz : z = x
    · subst hz
      exact iff_of_false ((h.absent hsound).unlisted p) fun hp => ha p (hx.symm.trans hp.2)
    · rw [Rmrk.indexed_iff.1 hs, h.nfts, StorageMap.insert_of_ne hz, State.parent_update h.owner,
        Function.update_of_ne hz]

/-- **`send` keeps the index**, whatever it is given. -/
theorem Sent.indexed {o old new : AccountId} {newOwner : AccountIdOrCollectionNftTuple}
    {nft nft' : NftInfo} (hs : Indexed s) (h : Sent o x newOwner old new nft nft' s s') :
    Indexed s' := by
  rw [Rmrk.indexed_iff] at hs ⊢
  intro p z
  rw [h.mem_children, h.nfts, State.parent_update h.owner]
  by_cases hz : z = x
  · subst hz
    have hold : s.parent z = decodeNftAccountId old := State.parent_of_owner h.owner_eq
    simp [hs p z, hold]
  · simp [hz, hs p z]

/-- `accept_nft` leaves the index as it is. -/
theorem Accepted.indexed_iff {o new : AccountId} {newOwner : AccountIdOrCollectionNftTuple}
    {nft : NftInfo} (hs : Indexed s) (h : Accepted o x newOwner new nft s s') :
    Indexed s' ↔ decodeNftAccountId new = s.parent x := by
  rw [Rmrk.indexed_iff] at hs ⊢
  have hx : s'.parent x = decodeNftAccountId new := State.parent_of_owner (by simp [h.owner])
  constructor
  · intro hs'
    refine Option.ext fun p => ?_
    have hp := hs' p x
    rw [h.children, hs p x, hx, h.nfts] at hp
    simpa [h.nfts_eq] using hp.symm
  · intro hnew p z
    by_cases hz : z = x
    · subst hz
      rw [h.children, hs p z, hx, hnew, h.nfts]
      simp [h.nfts_eq]
    · rw [h.children, hs p z, h.nfts, StorageMap.insert_of_ne hz, State.parent_update h.owner,
        Function.update_of_ne hz]

/-- Up the index is up the owners. -/
theorem Indexed.reaches (hs : Indexed s) (h : Below s x p) : Reaches s.parent p x := by
  induction h with
  | refl => exact .refl
  | tail _ hbc ih => exact .head (((indexed_iff.1 hs _ _).1 hbc).2) ih

/-- **What is destroyed leaves the index in order exactly if the entry of
the topmost NFT goes too.** -/
theorem Destroyed.indexed_iff {q : Option NftKey} (hs : Indexed s) (h : Destroyed x q s s')
    (howner : ∀ z, z ≠ x → s'.owner z = s.owner z) :
    Indexed s' ↔ ∀ p, x ∈ s.children p → Below s x p ∨ s.recorded x = some p ∨ q = some p := by
  constructor
  · intro hs' p hp
    have hnot : x ∉ s'.children p := by
      intro hmem
      have := ((hs'.mem_children p x).1 hmem).1
      simp [h.nfts_below x .refl] at this
    rw [h.mem_children] at hnot
    by_contra hno
    simp only [not_or] at hno
    exact hnot ⟨hp, hno.1, fun h => hno.2.1 h.2, fun h => hno.2.2 h.2⟩
  · intro hx
    have hs := Rmrk.indexed_iff.1 hs
    have hsub : ∀ p z, z ∈ s'.children p → z ∈ s.children p := fun p z hz =>
      ((h.mem_children p z).1 hz).1
    rw [Rmrk.indexed_iff]
    intro p z
    by_cases hz : Below s x z
    · -- an NFT that has gone is listed nowhere
      refine iff_of_false (fun hmem => ?_) (by simp [h.nfts_below z hz])
      obtain ⟨hp, hbp, hrec, hq⟩ := (h.mem_children p z).1 hmem
      rcases ReflTransGen.cases_tail hz with rfl | ⟨b, hb, hbz⟩
      · rcases hx p hp with hbelow | hr | hr
        · exact hbp hbelow
        · exact hrec ⟨hz, hr⟩
        · exact hq ⟨rfl, hr⟩
      · -- its one parent has gone with it
        have hpb : p = b := Option.some.inj (((hs p z).1 hp).2.symm.trans ((hs b z).1 hbz).2)
        exact hbp (hpb ▸ hb)
    · have hzx : z ≠ x := by rintro rfl; exact hz .refl
      have hparent : s'.parent z = s.parent z := by simp only [State.parent, howner z hzx]
      rw [hparent, h.nfts_else z hz, ← hs p z]
      refine ⟨hsub p z, fun hp => (h.mem_children p z).2 ⟨hp, fun hb => hz (hb.tail hp), ?_, ?_⟩⟩
      · exact fun hb => hz hb.1
      · exact fun hb => hzx hb.1

/-- **One step keeps the index exactly if it meets the condition.** -/
theorem indexed_step (hsound : Sound s) (hs : Indexed s) (hstep : Step s act s') :
    Indexed s' ↔ KeepsIndex s act := by
  have heq : s'.children = s.children → s'.owner = s.owner →
      (∀ z, s'.nfts z = none ↔ s.nfts z = none) → Indexed s' := indexed_of_eq hs
  cases hstep.outcome with
  | silent hstill h =>
      exact iff_of_true (heq h.children h.owner fun z => by rw [h.nfts])
        (keepsIndex_of_still hstill)
  | noted hstill h =>
      exact iff_of_true (heq h.children h.owner fun z => by rw [h.nfts])
        (keepsIndex_of_still hstill)
  | mintNft _ _ h => exact h.indexed_iff hsound hs
  | mintNftDirectlyToNft _ _ _ h =>
      rw [h.indexed_iff hsound hs]
      simp [KeepsIndex]
  | send h => exact iff_of_true (h.indexed hs) trivial
  | acceptNft h =>
      rw [h.indexed_iff hs, ← h.target.account]
      rfl
  | @burnNft o x k hroot h howner =>
      rw [h.indexed_iff hs fun z hz => by rw [howner, Function.update_of_ne hz]]
      change _ ↔ (_ → ∀ p, s.parent x = some p → s.recorded x = some p)
      constructor
      · intro hx hnft p hp
        rcases hx p ((indexed_iff.1 hs p x).2 ⟨hnft, hp⟩) with hbelow | hr | hr
        -- an NFT above itself has no root owner
        · have hup : Points s.parent x p := hp
          exact absurd (TransGen.head' hup (hs.reaches hbelow)) hroot.not_transGen
        · exact hr
        · simp at hr
      · intro hc p hp
        obtain ⟨hnft, hp⟩ := (indexed_iff.1 hs p x).1 hp
        exact .inr (.inl (hc hnft p hp))
  | @rejectNft o x nft _ _ h howner =>
      rw [h.indexed_iff hs fun z _ => by rw [howner]]
      exact iff_of_true (fun p hp => .inr (.inr ((indexed_iff.1 hs p x).1 hp).2)) trivial
  | unequip h =>
      exact iff_of_true (heq h.children h.owner fun z => by
        rw [h.nfts, StorageMap.mutate_eq_none_iff]) trivial
  | equip h =>
      exact iff_of_true (heq h.children h.owner fun z => by
        rw [h.nfts, StorageMap.mutate_eq_none_iff]) trivial
  | list _ _ _ h =>
      exact iff_of_true (heq h.children h.owner fun z => by rw [h.nfts]) trivial
  | unlist _ h =>
      exact iff_of_true (heq h.children h.owner fun z => by rw [h.nfts]) trivial
  | buy _ _ _ h => exact iff_of_true (h.indexed hs) trivial
  | acceptOffer _ h => exact iff_of_true (h.indexed hs) trivial

/-! ## Every run -/

theorem indexed_genesis (h : Genesis s) : Indexed s := by
  obtain ⟨w, -, -, rfl⟩ := h
  constructor <;> simp [genesis]

/-- **The index over a run.** It is the inverse of ownership in all its
states exactly if no call of it changes the parent of an NFT behind the
index. -/
theorem indexed_throughout_iff (hr : IsRun h s) :
    Run.Throughout Indexed h s ↔ ∀ e ∈ h, KeepsIndex e.1 e.2 :=
  Run.throughout_iff (fun _ => indexed_genesis)
    (fun _ _ _ hreach hs hstep => indexed_step (Reachable.sound hreach) hs hstep) hr

namespace Mock

/-- Alice mints an NFT to one of hers. -/
def mintedInto : List Extrinsic :=
  [(alice, mintInto (0, 0)), (alice, mintTo alice), (alice, newCollection)]

/-- **A reachable gap in the index**: the child is listed nowhere. -/
theorem not_indexed_of_reachable : ¬ ∀ s : State Storage, Reachable s → Indexed s := by
  intro hall
  have hs := hall (replay mintedInto) (reachable_replay (by decide +kernel))
  have hnft : ((replay mintedInto).nfts (0, 1)).isSome = true := by decide +kernel
  have howner : (replay mintedInto).owner (0, 1) = some (nftToAccountId (0, 0)) := by
    decide +kernel
  have hlist : (0, 1) ∉ (replay mintedInto).children (0, 0) := by decide +kernel
  exact hlist ((hs.mem_children (0, 0) (0, 1)).2 ⟨hnft, howner⟩)

/-- Alice sends an NFT to another of hers. -/
def sentInto : List Extrinsic :=
  [(alice, .send (0, 1) (.collectionAndNftTuple 0 0)),
    (alice, mintTo alice), (alice, mintTo alice), (alice, newCollection)]

theorem indexed_sentInto : Run.Throughout Indexed (history sentInto) (replay sentInto) := by
  refine (indexed_throughout_iff (isRun_replay (by decide +kernel))).2 ?_
  simp only [sentInto, history, List.forall_mem_cons, List.not_mem_nil, false_imp_iff,
    implies_true, and_true]
  have halice : decodeNftAccountId alice = none := by decide +kernel
  exact ⟨trivial, halice, halice, trivial⟩

end Mock

end Rmrk
