import Rmrk.Helpers.Issued
import Rmrk.Mock.Replay
/-!
# Isolation between owners

What somebody signs should not touch the NFTs of somebody else. Burning
follows the children index down from an NFT of the signer's, so it does
not as long as every entry of the index is true: an entry is false once
`accept_nft` has moved the NFT away from the parent it is listed under, or
`burn_nft` has burned it and left the entry behind.
-/

namespace Rmrk

open Relation Pointer

variable {W : Type} [Config W] {s s' : State W} {act : Act W} {h : List (State W × Act W)}
variable {x y : NftKey} {a b o : AccountId}

/-! ## The property -/

/-- An NFT is as it was: its record, its owner, its resources and their
priorities. -/
structure Untouched (x : NftKey) (s s' : State W) : Prop where
  nfts : s'.nfts x = s.nfts x
  owner : s'.owner x = s.owner x
  resources : ∀ r, s'.resources (x, r) = s.resources (x, r)
  priorities : ∀ r, s'.priorities (x, r) = s.priorities (x, r)

/-- **Isolation.** A call of `rmrk-core` leaves untouched what has another
root owner than its signer, unless the signer is its issuer; and what it
destroys has the signer for its root owner. -/
def Isolated (s : State W) : Prop :=
  ∀ o call s', call.pallet = .core → Step s (.signed o call) s' →
    ∀ x, (s.nfts x).isSome = true →
      (∀ b, RootOwner s x b → b ≠ o →
        (∀ col, s.collections x.1 = some col → col.issuer ≠ o) → Untouched x s s') ∧
      (s'.nfts x = none → RootOwner s x o)

/-! ## True entries -/

/-- **No entry of the index is false**: what is listed under an NFT is
owned by it. -/
def TrueEntries (s : State W) : Prop :=
  ∀ p x, x ∈ s.children p → s.owner x = some (nftToAccountId p)

/-- **What is listed under an NFT is accepted for that NFT only, and has it
on record when it is burned.** -/
def KeepsEntry (s : State W) : Act W → Prop
  | .signed _ (.acceptNft x newOwner) =>
      ∀ p, x ∈ s.children p → newOwner.account = nftToAccountId p
  | .signed _ (.burnNft x _) => ∀ p, x ∈ s.children p → s.recorded x = some p
  | _ => True

theorem keepsEntry_of_still (h : act.still = true) : KeepsEntry s act := by
  cases act with
  | between => trivial
  | signed o c => cases c <;> trivial

theorem TrueEntries.of_subset (hs : TrueEntries s) (hsub : ∀ p, s'.children p ⊆ s.children p)
    (howner : s'.owner = s.owner) : TrueEntries s' :=
  fun p x hx => howner ▸ hs p x (hsub p hx)

theorem Minted.trueEntries {nft : NftInfo} (hsound : Sound s) (hs : TrueEntries s)
    (h : Minted x a nft s s') : TrueEntries s' := by
  intro p z hz
  rw [h.children] at hz
  have hzx : z ≠ x := by rintro rfl; exact (h.absent hsound).unlisted p hz
  rw [h.owner, Function.update_of_ne hzx]
  exact hs p z hz

theorem Sent.trueEntries {old new : AccountId} {newOwner : AccountIdOrCollectionNftTuple}
    {nft nft' : NftInfo} (hs : TrueEntries s) (h : Sent o x newOwner old new nft nft' s s') :
    TrueEntries s' := by
  intro p z hz
  rw [h.owner]
  rcases (h.mem_children p z).1 hz with ⟨rfl, hnew⟩ | ⟨hmem, hne⟩
  · rw [Function.update_self, eq_nftToAccountId_of_decode hnew]
  · have hzx : z ≠ x := by
      rintro rfl
      have hold := hs p z hmem
      rw [h.owner_eq, Option.some.injEq] at hold
      exact hne ⟨rfl, by rw [hold, decodeNftAccountId_nftToAccountId]⟩
    rw [Function.update_of_ne hzx]
    exact hs p z hmem

theorem Accepted.trueEntries_iff {new : AccountId} {newOwner : AccountIdOrCollectionNftTuple}
    {nft : NftInfo} (hs : TrueEntries s) (h : Accepted o x newOwner new nft s s') :
    TrueEntries s' ↔ ∀ p, x ∈ s.children p → new = nftToAccountId p := by
  constructor
  · intro hs' p hp
    have := hs' p x (by rwa [h.children])
    simpa [h.owner] using this
  · intro hx p z hz
    rw [h.children] at hz
    rw [h.owner]
    by_cases hzx : z = x
    · subst hzx
      rw [Function.update_self, hx p hz]
    · rw [Function.update_of_ne hzx]
      exact hs p z hz

/-- Down the index is down from the owner. -/
theorem TrueEntries.reaches (hs : TrueEntries s) (hx : Below s y x) : Reaches s.parent x y := by
  induction hx with
  | refl => exact .refl
  | @tail c x _ hcx ih => exact .head (State.parent_eq_some_iff.2 (hs c x hcx)) ih

/-- **What the index reaches from an NFT has its root owner.** -/
theorem TrueEntries.rootOwner (hs : TrueEntries s) (hx : Below s y x) (hy : RootOwner s y b) :
    RootOwner s x b :=
  (rootOwner_of_reaches (hs.reaches hx)).2 hy

/-- **A burn leaves no false entry exactly if the entry of what is burned
is the one on record.** -/
theorem Destroyed.trueEntries_iff (hs : TrueEntries s) (hroot : RootOwner s x o)
    (h : Destroyed x none s s') (howner : s'.owner = Function.update s.owner x none) :
    TrueEntries s' ↔ ∀ p, x ∈ s.children p → s.recorded x = some p := by
  constructor
  · intro hs' p hp
    by_contra hrec
    have hup : Points s.parent x p := State.parent_eq_some_iff.2 (hs p x hp)
    -- an NFT above itself has no root owner
    have hbelow : ¬ Below s x p := fun hb =>
      hroot.not_transGen (TransGen.head' hup (hs.reaches hb))
    have := hs' p x ((h.mem_children p x).2 ⟨hp, hbelow, fun hc => hrec hc.2, by simp⟩)
    simp [howner] at this
  · intro hx p z hz
    obtain ⟨hp, -, hrec, -⟩ := (h.mem_children p z).1 hz
    have hzx : z ≠ x := by
      rintro rfl
      exact hrec ⟨.refl, hx p hp⟩
    rw [howner, Function.update_of_ne hzx]
    exact hs p z hp

/-- **One step keeps the entries true exactly if it meets the
condition.** -/
theorem trueEntries_step (hsound : Sound s) (hs : TrueEntries s) (hstep : Step s act s') :
    TrueEntries s' ↔ KeepsEntry s act := by
  have heq : s'.children = s.children → s'.owner = s.owner → TrueEntries s' := fun hch ho =>
    hs.of_subset (fun p => by rw [hch]) ho
  cases hstep.outcome with
  | silent hstill h =>
      exact iff_of_true (heq h.children h.owner) (keepsEntry_of_still hstill)
  | noted hstill h =>
      exact iff_of_true (heq h.children h.owner) (keepsEntry_of_still hstill)
  | mintNft _ _ h => exact iff_of_true (h.trueEntries hsound hs) trivial
  | mintNftDirectlyToNft _ _ _ h => exact iff_of_true (h.trueEntries hsound hs) trivial
  | send h => exact iff_of_true (h.trueEntries hs) trivial
  | acceptNft h =>
      rw [h.trueEntries_iff hs, ← h.target.account]
      rfl
  | burnNft hroot h howner => exact h.trueEntries_iff hs hroot howner
  | rejectNft _ _ h howner =>
      exact iff_of_true (hs.of_subset (fun p z hz => ((h.mem_children p z).1 hz).1) howner) trivial
  | unequip h => exact iff_of_true (heq h.children h.owner) trivial
  | equip h => exact iff_of_true (heq h.children h.owner) trivial
  | list _ _ _ h => exact iff_of_true (heq h.children h.owner) trivial
  | unlist _ h => exact iff_of_true (heq h.children h.owner) trivial
  | buy _ _ _ h => exact iff_of_true (h.trueEntries hs) trivial
  | acceptOffer _ h => exact iff_of_true (h.trueEntries hs) trivial

theorem trueEntries_genesis (h : Genesis s) : TrueEntries s := by
  obtain ⟨w, -, -, rfl⟩ := h
  intro p x hx
  simp [genesis] at hx

/-- **True entries over a run.** -/
theorem trueEntries_throughout_iff (hr : IsRun h s) :
    Run.Throughout TrueEntries h s ↔ ∀ e ∈ h, KeepsEntry e.1 e.2 :=
  Run.throughout_iff (fun _ => trueEntries_genesis)
    (fun _ _ _ hreach hs hstep => trueEntries_step (Reachable.sound hreach) hs hstep) hr

/-! ## Isolation -/

theorem Undisturbed.untouched (h : Undisturbed x s s') : Untouched x s s' :=
  ⟨h.nfts, h.owner, h.resources, h.priorities⟩

/-- **What is another's is untouched** where the entries are true. -/
theorem untouched_of_trueEntries {call : Call W} (hsound : Sound s) (hs : TrueEntries s)
    (hcore : call.pallet = .core) (hstep : Step s (.signed o call) s') (hx : RootOwner s x b)
    (hb : b ≠ o) (hissuer : ∀ col, s.collections x.1 = some col → col.issuer ≠ o) :
    Untouched x s s' := by
  -- an NFT with a root owner is not the one a call of another's is about
  have hne : ∀ y, RootOwner s y o → x ≠ y := fun y hy hxy => hb (hx.unique (hxy ▸ hy))
  have hnew : ∀ y, Absent y s → x ≠ y := by
    rintro y hy rfl
    have := hx.owner_isSome
    simp [hy.owner] at this
  have hbelow : ∀ y, RootOwner s y o → ¬ Below s y x := fun y hy hyx =>
    hb (hx.unique (hs.rootOwner hyx hy))
  refine Undisturbed.untouched ?_
  cases hstep.outcome with
  | silent _ h => exact .of_quiet h.toQuiet (h.notes x)
  | noted _ h hby =>
      refine .of_quiet h.toQuiet (h.notes x ?_)
      rcases hby with hroot | ⟨col, hcol, hcolo⟩
      · exact hne _ hroot
      · rintro rfl; exact hissuer col hcol hcolo
  | mintNft _ _ h =>
      have hxy := hnew _ (h.absent hsound)
      exact .of_put hxy h.owner h.nfts (h.notes x hxy)
  | mintNftDirectlyToNft _ _ _ h =>
      have hxy := hnew _ (h.absent hsound)
      exact .of_put hxy h.owner h.nfts (h.notes x hxy)
  | send h => exact .of_put (hne _ h.root) h.owner h.nfts (h.notes x)
  | acceptNft h => exact .of_put (hne _ h.root) h.owner h.nfts (h.notes x)
  | burnNft hroot h howner =>
      exact .of_destroyed h (hbelow _ hroot)
        (by rw [howner, Function.update_of_ne (hne _ hroot)])
  | rejectNft hroot _ h howner =>
      exact .of_destroyed h (hbelow _ hroot) (by rw [howner])
  | unequip | equip | list | unlist | buy | acceptOffer => simp [Call.pallet] at hcore

/-- **What is destroyed is the signer's** where the entries are true. -/
theorem rootOwner_of_destroyed {call : Call W} (hs : TrueEntries s)
    (hcore : call.pallet = .core) (hstep : Step s (.signed o call) s')
    (hx : (s.nfts x).isSome = true) (hgone : s'.nfts x = none) : RootOwner s x o := by
  have hkept : s'.nfts = s.nfts → RootOwner s x o := fun hn => by simp [← hn, hgone] at hx
  have hput : ∀ {y : NftKey} {nft : NftInfo}, s'.nfts = s.nfts.insert y nft →
      RootOwner s x o := fun {y nft} hn => by
    rw [hn, StorageMap.insert_apply] at hgone
    split at hgone <;> simp_all
  have hburn : ∀ {y : NftKey} {q : Option NftKey}, RootOwner s y o → Destroyed y q s s' →
      RootOwner s x o := fun {y q} hroot h => by
    by_cases hb : Below s y x
    · exact hs.rootOwner hb hroot
    · rw [h.nfts_else x hb] at hgone
      simp [hgone] at hx
  cases hstep.outcome with
  | silent _ h => exact hkept h.nfts
  | noted _ h => exact hkept h.nfts
  | mintNft _ _ h => exact hput h.nfts
  | mintNftDirectlyToNft _ _ _ h => exact hput h.nfts
  | send h => exact hput h.nfts
  | acceptNft h => exact hput h.nfts
  | burnNft hroot h => exact hburn hroot h
  | rejectNft hroot _ h => exact hburn hroot h
  | unequip | equip | list | unlist | buy | acceptOffer => simp [Call.pallet] at hcore

/-- **Where the entries are true, owners are isolated.** -/
theorem isolated_of_trueEntries (hsound : Sound s) (hs : TrueEntries s) : Isolated s :=
  fun _ _ _ hcore hstep _ hx =>
    ⟨fun _ hb hne hissuer => untouched_of_trueEntries hsound hs hcore hstep hb hne hissuer,
      rootOwner_of_destroyed hs hcore hstep hx⟩

/-- **Isolation over a run.** Owners are isolated in all the states of a
run in which what is listed under an NFT is accepted for that NFT only,
and has it on record when it is burned. -/
theorem isolated_throughout (hr : IsRun h s) (hc : ∀ e ∈ h, KeepsEntry e.1 e.2) :
    Run.Throughout Isolated h s :=
  Run.Throughout.imp (fun _ hreach => isolated_of_trueEntries (Reachable.sound hreach)) hr
    ((trueEntries_throughout_iff hr).2 hc)

namespace Mock

/-- Of two NFTs of Charlie's collection Alice sends one into the other, and
accepts it for Bob. -/
def acceptedAway : List Extrinsic :=
  [(alice, .acceptNft (0, 1) (.accountId bob)),
    (alice, .send (0, 1) (.collectionAndNftTuple 0 0)),
    (charlie, mintTo alice), (charlie, mintTo alice), (charlie, newCollection)]

/-- **Alice burns her NFT, and with it Bob's.** -/
theorem not_isolated_of_reachable : ¬ ∀ s : State Storage, Reachable s → Isolated s := by
  intro hall
  have hs := hall (replay acceptedAway) (reachable_replay (by decide +kernel))
  have hburn : returns (alice, .burnNft (0, 0) 10) (replay acceptedAway) = true := by
    decide +kernel
  have hnft : ((replay acceptedAway).nfts (0, 1)).isSome = true := by decide +kernel
  have howner : (replay acceptedAway).owner (0, 1) = some bob := by decide +kernel
  have hbob : decodeNftAccountId bob = none := by decide +kernel
  have hgone : (apply (alice, .burnNft (0, 0) 10) (replay acceptedAway)).nfts (0, 1) = none := by
    decide +kernel
  have hissuer : ((replay acceptedAway).collections 0).map CollectionInfo.issuer =
      some charlie := by decide +kernel
  have hu := (hs _ _ _ rfl (step_apply hburn) (0, 1) hnft).1 bob
    ((rootOwner_of_owner howner hbob).2 rfl) (by decide +kernel) fun col hcol => by
      rw [hcol, Option.map_some, Option.some.injEq] at hissuer
      rw [hissuer]
      decide +kernel
  rw [← hu.nfts, hgone] at hnft
  simp at hnft

/-- Alice sends the one into the other. -/
def sentWithin : List Extrinsic :=
  [(alice, .send (0, 1) (.collectionAndNftTuple 0 0)),
    (charlie, mintTo alice), (charlie, mintTo alice), (charlie, newCollection)]

/-- She accepts it for the NFT it is listed under. -/
def acceptedInPlace : List Extrinsic :=
  (alice, .acceptNft (0, 1) (.collectionAndNftTuple 0 0)) :: sentWithin

theorem isolated_acceptedInPlace :
    Run.Throughout Isolated (history acceptedInPlace) (replay acceptedInPlace) := by
  have hsent : ∀ e ∈ history sentWithin, KeepsEntry e.1 e.2 := by
    simp only [sentWithin, history, List.forall_mem_cons, List.not_mem_nil, false_imp_iff,
      implies_true, and_true]
    exact ⟨trivial, trivial, trivial, trivial⟩
  refine isolated_throughout (isRun_replay (by decide +kernel)) (List.forall_mem_cons.2 ⟨?_, hsent⟩)
  intro p hp
  have howner : (replay sentWithin).owner (0, 1) = some (nftToAccountId (0, 0)) := by
    decide +kernel
  have hp := ((trueEntries_throughout_iff (isRun_replay (by decide +kernel))).2 hsent).1 p _ hp
  rw [howner, Option.some.injEq] at hp
  exact hp

end Mock

end Rmrk
