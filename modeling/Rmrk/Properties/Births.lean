import Rmrk.Properties.History
/-!
# Born once, and gone for good

Which NFTs there are can be read off the history of a run: those it has
minted and not destroyed since. And what each was minted as can be read
off its mint, whatever has been done to it after.
-/

namespace Rmrk

open Effect Relation

variable {W : Type} [Config W] {s s' : State W} {act : Act W} {h : List (State W × Act W)}
variable {x y : NftKey} {o : AccountId} {c : CollectionId}

/-- The step destroys `x`: it burns or rejects an NFT from which the index
reaches it. -/
def Act.Destroys (s : State W) (act : Act W) (x : NftKey) : Prop :=
  ∃ y, act.destroys = some y ∧ Below s y x

/-- **What an NFT is minted as**, by the arguments of its mint. -/
def MintedAs (s : State W) : Act W → NftInfo → Prop
  | .signed o (.mintNft _ _ rr r md tr _), nft =>
      nft.royalty = Core.royaltyInfo rr r o ∧ nft.metadata = md ∧ nft.transferable = tr
  | .signed _ (.mintNftDirectlyToNft p _ rr r md tr _), nft =>
      ∃ b, RootOwner s p b ∧ nft.royalty = Core.royaltyInfo rr r b ∧ nft.metadata = md ∧
        nft.transferable = tr
  | _, _ => False

theorem MintedAs.kept {nft nft' : NftInfo} (h : MintedAs s act nft) (hk : nft.Kept nft') :
    MintedAs s act nft' := by
  obtain ⟨hroyalty, hmd, htr⟩ := hk
  cases act with
  | between => exact h
  | signed o call =>
      cases call <;> first
        | exact h.elim
        | simpa only [MintedAs, hroyalty, hmd, htr] using h

/-! ## One step -/

/-- What destroys is signed by the root owner of what it is called on. -/
theorem Step.destroyed (hstep : Step s act s') (hact : act.destroys = some y) :
    (∃ o, RootOwner s y o) ∧ ∃ q, Destroyed y q s s' := by
  cases act with
  | between => cases hact
  | signed o call =>
      cases call with
      | burnNft z k =>
          obtain rfl : z = y := Option.some.inj hact
          obtain ⟨hroot, h, -⟩ := Core.burnNft_ok hstep
          exact ⟨⟨o, hroot⟩, _, h⟩
      | rejectNft z =>
          obtain rfl : z = y := Option.some.inj hact
          obtain ⟨hroot, -, h, -⟩ := Core.rejectNft_ok hstep
          exact ⟨⟨o, hroot⟩, _, h⟩
      | _ => cases hact

/-- **What there is after a step** is what there was and has not been
destroyed, and what has been minted. -/
theorem Step.isSome_nfts (hstep : Step s act s') : (s'.nfts x).isSome = true ↔
    (s.nfts x).isSome = true ∧ ¬ act.Destroys s x ∨ act.Mints s x := by
  unfold Act.Destroys Act.Mints
  cases hmint : act.mintsInto with
  | some c =>
      obtain ⟨nft, hnfts⟩ := (hstep.registered.counting hmint).nfts
      have hno : act.destroys = none := by
        cases hd : act.destroys with
        | none => rfl
        | some y => simp [Act.mintsInto_of_destroys hd] at hmint
      rw [hnfts, StorageMap.isSome_insert]
      simp only [hno, reduceCtorEq, false_and, exists_false, not_false_eq_true, and_true,
        Option.some.injEq]
      refine or_congr_right ⟨?_, ?_⟩
      · rintro rfl
        exact ⟨rfl, rfl⟩
      · rintro ⟨rfl, hx⟩
        rw [hx]
  | none =>
      cases hdest : act.destroys with
      | none =>
          have hp := (hstep.outcome.samePresence hmint hdest).nfts x
          simp only [reduceCtorEq, false_and, exists_false, not_false_eq_true, and_true, or_false]
          rw [Option.isSome_iff_ne_none, Option.isSome_iff_ne_none, ne_eq, ne_eq, hp]
      | some y =>
          obtain ⟨-, q, h⟩ := hstep.destroyed hdest
          simp only [Option.some.injEq, exists_eq_left', reduceCtorEq, false_and, or_false]
          by_cases hb : Below s y x
          · simp [h.nfts_below x hb, hb]
          · simp [h.nfts_else x hb, hb]

/-- Nothing is destroyed that has not been issued. -/
theorem not_destroys_of_unissued (hs : Sound s) (hstep : Step s act s')
    (hx : s.nextNftId x.1 ≤ x.2) : ¬ act.Destroys s x := by
  rintro ⟨y, hact, hyx⟩
  have habsent := hs.absent x hx
  obtain ⟨⟨o, hroot⟩, -⟩ := hstep.destroyed hact
  rcases ReflTransGen.cases_tail hyx with rfl | ⟨z, -, hzx⟩
  · exact habsent.ne_of_root hroot rfl
  · exact habsent.unlisted z hzx

/-- **A record that appears** is that of what the step mints, with the
arguments it is given. -/
theorem Step.mintedAs {nft : NftInfo} (hstep : Step s act s') (hnone : s.nfts x = none)
    (hx : s'.nfts x = some nft) : act.Mints s x ∧ MintedAs s act nft := by
  have hmints : act.Mints s x := by
    have := hstep.isSome_nfts (x := x)
    simpa [hnone, hx] using this
  refine ⟨hmints, ?_⟩
  -- the record is the one the mint makes
  have hself : ∀ {n : NftId} {a : AccountId} {born : NftInfo},
      Minted (x.1, n) a born s s' → nft = born := by
    intro n a born h
    obtain rfl : x.2 = n := hmints.2.symm.trans h.next
    rw [h.nfts, StorageMap.insert_self, Option.some.injEq] at hx
    exact hx.symm
  cases act with
  | between => cases hmints.1
  | signed o call =>
      cases call with
      | mintNft owner c rr r md tr res =>
          obtain rfl : c = x.1 := Option.some.inj hmints.1
          obtain ⟨n, col, s₁, s₂, w, hid, hrec, hw, hadd⟩ := Core.mintNft_parts hstep
          rw [hself (Core.minted_of_parts hid hrec rfl hw hadd)]
          exact ⟨rfl, rfl, rfl⟩
      | mintNftDirectlyToNft p c rr r md tr res =>
          obtain rfl : c = x.1 := Option.some.inj hmints.1
          obtain ⟨n, col, s₁, s₂, b, w, hid, hroot, hrec, hw, hadd⟩ :=
            Core.mintNftDirectlyToNft_parts hstep
          rw [hself (Core.minted_of_parts hid hrec rfl hw hadd)]
          exact ⟨b, hroot, rfl, rfl, rfl⟩
      | _ => cases hmints.1

/-! ## Every run -/

/-- What has not been issued has not been destroyed. -/
theorem not_past_destroys (hr : IsRun h s) (hx : s.nextNftId x.1 ≤ x.2) :
    ¬ Run.Past (fun s act => Act.Destroys s act x) h := by
  induction hr with
  | start => simp [Run.Past]
  | step hr hstep ih =>
      have hx := hstep.outcome.issued hx
      rw [Run.past_cons, not_or]
      exact ⟨not_destroys_of_unissued (Reachable.sound hr.reachable) hstep hx, ih hx⟩

/-- **Births and deaths.** An NFT is there exactly if the run has minted it
and has not destroyed it; and its royalty, its metadata and whether it is
transferable are those of its mint. -/
theorem births (hr : IsRun h s) (x : NftKey) :
    ((s.nfts x).isSome = true ↔ Run.Past (fun s act => Act.Mints s act x) h ∧
      ¬ Run.Past (fun s act => Act.Destroys s act x) h) ∧
    ∀ nft, s.nfts x = some nft →
      ∃ e ∈ h, e.2.Mints e.1 x ∧ MintedAs e.1 e.2 nft := by
  constructor
  · refine Run.past_not_past_iff (P := fun s => (s.nfts x).isSome = true) (fun s h0 => ?_)
      (fun _ _ _ _ hstep => hstep.isSome_nfts) (fun h s act s' hr hstep hmints => ?_) hr
    · obtain ⟨w, -, -, rfl⟩ := h0
      simp [genesis]
    · have hx : s.nextNftId x.1 ≤ x.2 := hmints.2 ▸ UInt32.le_refl _
      exact ⟨not_destroys_of_unissued (Reachable.sound hr.reachable) hstep hx,
        not_past_destroys hr hx⟩
  · induction hr with
    | start h0 =>
        obtain ⟨w, -, -, rfl⟩ := h0
        simp [genesis]
    | @step h s s' act hr hstep ih =>
        intro nft' hnft'
        cases hnft : s.nfts x with
        | none => exact ⟨(s, act), List.mem_cons_self, hstep.mintedAs hnft hnft'⟩
        | some nft =>
            obtain ⟨e, he, hmints, has⟩ := ih nft hnft
            have hissued : x.2 < s.nextNftId x.1 := UInt32.not_le.1 fun hle => by
              simp [((Reachable.sound hr.reachable).absent x hle).nfts] at hnft
            exact ⟨e, List.mem_cons_of_mem _ he, hmints,
              has.kept (hstep.nfts_age.changed x nft nft' hissued hnft hnft')⟩

namespace Mock

/-- An NFT is burned with another that was sent into it. -/
def burnedTogether : List Extrinsic :=
  [(alice, .burnNft (0, 0) 10), (alice, .send (0, 1) (.collectionAndNftTuple 0 0)),
    (alice, mintTo alice), (alice, mintTo alice), (alice, newCollection)]

theorem births_burnedTogether :
    ¬ (Run.Past (fun s act => Act.Mints s act (0, 1)) (history burnedTogether) ∧
      ¬ Run.Past (fun s act => Act.Destroys s act (0, 1)) (history burnedTogether)) := by
  rw [← (births (isRun_replay (by decide +kernel)) (0, 1)).1]
  decide +kernel

end Mock

end Rmrk
