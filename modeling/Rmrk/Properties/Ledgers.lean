import Rmrk.Helpers.Issued
import Rmrk.Mock.Replay
/-!
# Two ledgers of the same NFTs

`rmrk-core` keeps a record of each NFT and `pallet_uniques` an owner. A
record is never without an owner; an owner can be without a record, and
the two can name different owners. Here is exactly when a run keeps them
in step: which NFTs exist, and who owns them.
-/

namespace Rmrk

variable {W : Type} [Config W] {s s' : State W} {act : Act W} {h : List (State W × Act W)}
variable {x : NftKey}

/-! ## Existence -/

/-- **The ledgers agree on what exists.** -/
def SameNfts (s : State W) : Prop :=
  ∀ x, (s.nfts x).isSome = true ↔ (s.owner x).isSome = true

/-- **Nothing is rejected, and nothing burned with another NFT**: what the
index reaches from a burned NFT, other than itself, is not there. -/
def BurnsAlone (s : State W) : Act W → Prop
  | .signed _ (.burnNft x _) => ∀ y, Below s x y → y ≠ x → s.owner y = none
  | .signed _ (.rejectNft _) => False
  | _ => True

theorem burnsAlone_of_still (h : act.still = true) : BurnsAlone s act := by
  cases act with
  | between => trivial
  | signed o c => cases c <;> trivial

/-- A step that writes both, or neither, keeps them in step. -/
theorem sameNfts_of_put {a : AccountId} {nft : NftInfo} (hs : SameNfts s)
    (howner : s'.owner = Function.update s.owner x (some a))
    (hnfts : s'.nfts = s.nfts.insert x nft) :
    SameNfts s' := by
  intro z
  by_cases hz : z = x
  · subst hz; simp [howner, hnfts]
  · rw [howner, hnfts, Function.update_of_ne hz, StorageMap.insert_of_ne hz]
    exact hs z

theorem sameNfts_of_eq (hs : SameNfts s) (howner : s'.owner = s.owner)
    (hnfts : ∀ z, s'.nfts z = none ↔ s.nfts z = none) : SameNfts s' := by
  intro z
  rw [howner, ← hs z, Option.isSome_iff_ne_none, Option.isSome_iff_ne_none, ne_eq, hnfts z]

/-- **One step keeps the ledgers in step exactly if it meets the
condition.** -/
theorem sameNfts_step (hs : SameNfts s) (hstep : Step s act s') :
    SameNfts s' ↔ BurnsAlone s act := by
  cases hstep.outcome with
  | silent hstill h =>
      exact iff_of_true (sameNfts_of_eq hs h.owner fun z => by rw [h.nfts])
        (burnsAlone_of_still hstill)
  | noted hstill h =>
      exact iff_of_true (sameNfts_of_eq hs h.owner fun z => by rw [h.nfts])
        (burnsAlone_of_still hstill)
  | mintNft _ _ h => exact iff_of_true (sameNfts_of_put hs h.owner h.nfts) trivial
  | mintNftDirectlyToNft _ _ _ h =>
      exact iff_of_true (sameNfts_of_put hs h.owner h.nfts) trivial
  | send h => exact iff_of_true (sameNfts_of_put hs h.owner h.nfts) trivial
  | acceptNft h => exact iff_of_true (sameNfts_of_put hs h.owner h.nfts) trivial
  | @burnNft o x k hroot h howner =>
      constructor
      · intro hs' y hy hyx
        have hnone := hs' y
        rw [h.nfts_below y hy, howner, Function.update_of_ne hyx] at hnone
        simpa using hnone
      · intro hc y
        by_cases hyx : y = x
        · subst hyx; simp [h.nfts_below y .refl, howner]
        · rw [howner, Function.update_of_ne hyx]
          by_cases hy : Below s x y
          · simp [h.nfts_below y hy, hc y hy hyx]
          · rw [h.nfts_else y hy]; exact hs y
  | @rejectNft o x nft hroot _ h howner =>
      -- the record goes and the owner stays
      refine iff_of_false (fun hs' => ?_) id
      have hx := (hs' x).2 (howner ▸ hroot.owner_isSome)
      simp [h.nfts_below x .refl] at hx
  | unequip h =>
      exact iff_of_true (sameNfts_of_eq hs h.owner fun z => by
        rw [h.nfts, StorageMap.mutate_eq_none_iff]) trivial
  | equip h =>
      exact iff_of_true (sameNfts_of_eq hs h.owner fun z => by
        rw [h.nfts, StorageMap.mutate_eq_none_iff]) trivial
  | list _ _ _ h => exact iff_of_true (sameNfts_of_eq hs h.owner fun z => by rw [h.nfts]) trivial
  | unlist _ h => exact iff_of_true (sameNfts_of_eq hs h.owner fun z => by rw [h.nfts]) trivial
  | buy _ _ _ h => exact iff_of_true (sameNfts_of_put hs h.owner h.nfts) trivial
  | acceptOffer _ h => exact iff_of_true (sameNfts_of_put hs h.owner h.nfts) trivial

theorem sameNfts_genesis (h : Genesis s) : SameNfts s := by
  obtain ⟨w, hw, -, rfl⟩ := h
  intro x
  have howner : (genesis w).owner x = none := hw x
  have hnft : (genesis w).nfts x = none := rfl
  simp [howner, hnft]

/-- **Existence over a run.** The two ledgers agree in all its states
exactly if nothing is rejected in it, and nothing burned together with
another NFT. -/
theorem sameNfts_throughout_iff (hr : IsRun h s) :
    Run.Throughout SameNfts h s ↔ ∀ e ∈ h, BurnsAlone e.1 e.2 :=
  Run.throughout_iff (fun _ => sameNfts_genesis)
    (fun _ _ _ _ hs hstep => sameNfts_step hs hstep) hr

namespace Mock

/-- Bob rejects what Alice minted to him. -/
def rejected : List Extrinsic :=
  [(bob, .rejectNft (0, 0)), (alice, mintTo bob), (alice, newCollection)]

/-- **A reachable ghost**: the record has gone, and Bob is still the owner. -/
theorem not_sameNfts_of_reachable : ¬ ∀ s : State Storage, Reachable s → SameNfts s := by
  intro hall
  have hs := hall (replay rejected) (reachable_replay (by decide +kernel)) (0, 0)
  have hnft : (replay rejected).nfts (0, 0) = none := by decide +kernel
  have howner : (replay rejected).owner (0, 0) = some bob := by decide +kernel
  simp [hnft, howner] at hs

/-- Alice burns an NFT nothing is listed under. -/
def burned : List Extrinsic :=
  [(alice, .burnNft (0, 0) 10), (alice, mintTo alice), (alice, newCollection)]

theorem sameNfts_burned : Run.Throughout SameNfts (history burned) (replay burned) := by
  refine (sameNfts_throughout_iff (isRun_replay (by decide +kernel))).2 ?_
  simp only [burned, history, List.forall_mem_cons, List.not_mem_nil, false_imp_iff,
    implies_true, and_true]
  refine ⟨fun y hy hne => ?_, trivial, trivial⟩
  have hleaf : (replay [(alice, mintTo alice), (alice, newCollection)]).children (0, 0) = ∅ := by
    decide +kernel
  exact absurd (eq_of_below hleaf hy) hne

end Mock

/-! ## Owners -/

/-- **The ledgers agree on who owns what has a record.** -/
def SameOwners (s : State W) : Prop :=
  ∀ x nft, s.nfts x = some nft → s.owner x = some nft.owner.account

/-- **Nothing changes owner without its record**: what is sent needs no
approval, and what is accepted is accepted for the owner it has. -/
def RecordsOwner (s : State W) : Act W → Prop
  | .signed o (.send _ newOwner) => ¬ ApprovalRequired s o newOwner
  | .signed _ (.acceptNft x newOwner) => s.owner x = some newOwner.account
  | _ => True

theorem recordsOwner_of_still (h : act.still = true) : RecordsOwner s act := by
  cases act with
  | between => trivial
  | signed o c => cases c <;> trivial

/-- After both ledgers have been written at `x`, they agree exactly if the
two writes do. -/
theorem sameOwners_put {a : AccountId} {nft : NftInfo} (hs : SameOwners s)
    (howner : s'.owner = Function.update s.owner x (some a))
    (hnfts : s'.nfts = s.nfts.insert x nft) :
    SameOwners s' ↔ a = nft.owner.account := by
  constructor
  · intro hs'
    simpa [howner] using hs' x nft (by simp [hnfts])
  · intro ha z nft' hz
    by_cases hzx : z = x
    · subst hzx
      rw [hnfts, StorageMap.insert_self, Option.some.injEq] at hz
      rw [howner, Function.update_self, ha, hz]
    · rw [hnfts, StorageMap.insert_of_ne hzx] at hz
      rw [howner, Function.update_of_ne hzx]
      exact hs z nft' hz

theorem sameOwners_of_eq (hs : SameOwners s) (howner : s'.owner = s.owner)
    (hnfts : ∀ z nft', s'.nfts z = some nft' →
      ∃ nft, s.nfts z = some nft ∧ nft.owner = nft'.owner) :
    SameOwners s' := by
  intro z nft' hz
  obtain ⟨nft, hnft, ho⟩ := hnfts z nft' hz
  rw [howner, hs z nft hnft, ho]

/-- A flag is not an owner. -/
theorem Wired.owner_eq {item : NftKey} {k : NftKey × BaseId × SlotId} {r : Option ResourceId}
    (h : Wired item k r s s') {z : NftKey} {nft' : NftInfo} (hz : s'.nfts z = some nft') :
    ∃ nft, s.nfts z = some nft ∧ nft.owner = nft'.owner := by
  obtain ⟨nft, hnft, hrec⟩ := h.record hz
  exact ⟨nft, hnft, by rw [hrec]⟩

/-- What is sent without approval is recorded as its new owner's. What
waits for approval is recorded as its old owner's, who is another. -/
theorem Sent.sameOwners_iff {o old new : AccountId} {newOwner : AccountIdOrCollectionNftTuple}
    {nft nft' : NftInfo} (hs : SameOwners s) (h : Sent o x newOwner old new nft nft' s s') :
    SameOwners s' ↔ ¬ ApprovalRequired s o newOwner := by
  rw [sameOwners_put hs h.owner h.nfts]
  by_cases ha : ApprovalRequired s o newOwner
  · refine iff_of_false (fun hnew => ?_) (not_not.2 ha)
    cases newOwner with
    | accountId id => exact ha
    | collectionAndNftTuple cid nid =>
        -- the parent is the old one, whose root owner is the sender
        refine ha ((rootOwner_of_parent ?_).1 h.root)
        rw [h.unapproved ha] at hnew
        rw [State.parent_eq_some_iff, hs x nft h.nfts_eq]
        exact congrArg some (hnew.symm.trans h.target.account.symm)
  · refine iff_of_true ?_ ha
    rw [h.approved ha, h.target.account]

/-- **One step keeps the owners in step exactly if it meets the
condition.** -/
theorem sameOwners_step (hs : SameOwners s) (hstep : Step s act s') :
    SameOwners s' ↔ RecordsOwner s act := by
  cases hstep.outcome with
  | silent hstill h =>
      exact iff_of_true (sameOwners_of_eq hs h.owner fun z nft hz => ⟨nft, h.nfts ▸ hz, rfl⟩)
        (recordsOwner_of_still hstill)
  | noted hstill h =>
      exact iff_of_true (sameOwners_of_eq hs h.owner fun z nft hz => ⟨nft, h.nfts ▸ hz, rfl⟩)
        (recordsOwner_of_still hstill)
  | mintNft howner _ h =>
      exact iff_of_true ((sameOwners_put hs h.owner h.nfts).2 (by rw [howner]; rfl)) trivial
  | mintNftDirectlyToNft howner _ _ h =>
      exact iff_of_true ((sameOwners_put hs h.owner h.nfts).2 (by rw [howner]; rfl)) trivial
  | send h => exact h.sameOwners_iff hs
  | @acceptNft o x newOwner new nft h =>
      rw [sameOwners_put hs h.owner h.nfts]
      change new = nft.owner.account ↔ s.owner x = some newOwner.account
      rw [hs x nft h.nfts_eq, h.target.account, Option.some.injEq, eq_comm]
  | @burnNft o x k _ h howner =>
      refine iff_of_true (fun z nft hz => ?_) trivial
      by_cases hb : Below s x z
      · simp [h.nfts_below z hb] at hz
      · have hzx : z ≠ x := by rintro rfl; exact hb .refl
        rw [h.nfts_else z hb] at hz
        rw [howner, Function.update_of_ne hzx, hs z nft hz]
  | @rejectNft o x _ _ _ h howner =>
      refine iff_of_true (sameOwners_of_eq hs howner fun z nft hz => ?_) trivial
      by_cases hb : Below s x z
      · simp [h.nfts_below z hb] at hz
      · exact ⟨nft, h.nfts_else z hb ▸ hz, rfl⟩
  | unequip h => exact iff_of_true (sameOwners_of_eq hs h.owner fun _ _ => h.owner_eq) trivial
  | equip h => exact iff_of_true (sameOwners_of_eq hs h.owner fun _ _ => h.owner_eq) trivial
  | list _ _ _ h =>
      exact iff_of_true (sameOwners_of_eq hs h.owner fun z nft hz => ⟨nft, h.nfts ▸ hz, rfl⟩)
        trivial
  | unlist _ h =>
      exact iff_of_true (sameOwners_of_eq hs h.owner fun z nft hz => ⟨nft, h.nfts ▸ hz, rfl⟩)
        trivial
  | buy _ _ _ h => exact iff_of_true ((h.sameOwners_iff hs).2 id) trivial
  | acceptOffer _ h => exact iff_of_true ((h.sameOwners_iff hs).2 id) trivial

theorem sameOwners_genesis (h : Genesis s) : SameOwners s := by
  obtain ⟨w, -, -, rfl⟩ := h
  intro x nft hx
  simp [genesis] at hx

/-- **Owners over a run.** The two ledgers name the same owners in all its
states exactly if nothing is sent in it that needs approval, and nothing
accepted for another owner than it has. -/
theorem sameOwners_throughout_iff (hr : IsRun h s) :
    Run.Throughout SameOwners h s ↔ ∀ e ∈ h, RecordsOwner e.1 e.2 :=
  Run.throughout_iff (fun _ => sameOwners_genesis)
    (fun _ _ _ _ hs hstep => sameOwners_step hs hstep) hr

namespace Mock

/-- Alice sends an NFT to one of Bob's. -/
def sentToBobs : List Extrinsic :=
  [(alice, .send (0, 0) (.collectionAndNftTuple 0 1)),
    (alice, mintTo bob), (alice, mintTo alice), (alice, newCollection)]

/-- **A reachable disagreement**: Bob's NFT owns it, and the record says
Alice. -/
theorem not_sameOwners_of_reachable : ¬ ∀ s : State Storage, Reachable s → SameOwners s := by
  intro hall
  have hs := hall (replay sentToBobs) (reachable_replay (by decide +kernel)) (0, 0)
  have hnft : ((replay sentToBobs).nfts (0, 0)).map NftInfo.owner = some (.accountId alice) := by
    decide +kernel
  have howner : (replay sentToBobs).owner (0, 0) = some (nftToAccountId (0, 1)) := by
    decide +kernel
  obtain ⟨nft, hnft, hrec⟩ := Option.map_eq_some_iff.1 hnft
  have := hs nft hnft
  rw [howner, hrec, Option.some.injEq] at this
  exact absurd this (by decide +kernel)

/-- Alice sends an NFT to another of hers. -/
def sentToOwn : List Extrinsic :=
  [(alice, .send (0, 0) (.collectionAndNftTuple 0 1)),
    (alice, mintTo alice), (alice, mintTo alice), (alice, newCollection)]

theorem sameOwners_sentToOwn :
    Run.Throughout SameOwners (history sentToOwn) (replay sentToOwn) := by
  refine (sameOwners_throughout_iff (isRun_replay (by decide +kernel))).2 ?_
  simp only [sentToOwn, history, List.forall_mem_cons, List.not_mem_nil, false_imp_iff,
    implies_true, and_true]
  refine ⟨not_not.2 ?_, trivial, trivial, trivial⟩
  exact (rootOwner_of_owner (a := alice) (by decide +kernel) (by decide +kernel)).2 rfl

end Mock

end Rmrk
