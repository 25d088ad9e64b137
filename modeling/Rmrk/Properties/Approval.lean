import Rmrk.Helpers.Issued
import Rmrk.Mock.Replay
/-!
# Approval of what is sent

An NFT somebody sends to an NFT of another's waits for the other's
approval. `send` works out whether to wait where the target is named as an
NFT, and not where it is named by its account; and it only ever sets the
flag, so that of an NFT that was waiting stays set wherever it goes.
-/

namespace Rmrk

open Effect

variable {W : Type} [Config W] {s s' : State W} {act : Act W} {x y p : NftKey}
variable {o a : AccountId} {newOwner : AccountIdOrCollectionNftTuple} {nft nft' : NftInfo}

/-! ## The property -/

/-- `x` is there, and is pending exactly if `q`. -/
def Marks (s : State W) (x : NftKey) (q : Prop) : Prop :=
  ∃ nft, s.nfts x = some nft ∧ (nft.pending = true ↔ q)

/-- **The approval protocol, kept by a step.** What is put under an NFT is
pending exactly if its root owner is somebody else, what is sent to an
account that is no NFT's is not, and otherwise the flag goes only where
the root owner accepts. -/
structure Approves (s : State W) (act : Act W) (s' : State W) : Prop where
  sentUnder : ∀ o x newOwner y, act = .signed o (.send x newOwner) →
    decodeNftAccountId newOwner.account = some y → Marks s' x (¬ RootOwner s y o)
  mintedUnder : ∀ o y c rr r md tr res,
    act = .signed o (.mintNftDirectlyToNft y c rr r md tr res) →
      Marks s' (c, s.nextNftId c) (¬ RootOwner s y o)
  sentAway : ∀ o x a, act = .signed o (.send x (.accountId a)) → decodeNftAccountId a = none →
    Marks s' x False
  confirmed : ∀ x, Marks s x True → Marks s' x False → (∀ o newOwner,
    act ≠ .signed o (.send x newOwner)) →
      ∃ o newOwner, act = .signed o (.acceptNft x newOwner) ∧ RootOwner s x o

/-- **What a send needs the flag to be beforehand**: what it is to be
afterwards, where the target is an account; and not set, where the target
is an NFT of the sender's. -/
def FlaggedRight (s : State W) : Act W → Prop
  | .signed o (.send x (.accountId a)) =>
      Marks s x (∃ y, decodeNftAccountId a = some y ∧ ¬ RootOwner s y o)
  | .signed o (.send x (.collectionAndNftTuple cid nid)) =>
      RootOwner s (cid, nid) o → Marks s x False
  | _ => True

/-! ## One step -/

omit [Config W] in
theorem marks_iff {q : Prop} (h : s.nfts x = some nft) :
    Marks s x q ↔ (nft.pending = true ↔ q) := by
  unfold Marks
  constructor
  · rintro ⟨nft', hnft', hq⟩
    rwa [Option.some.inj (h.symm.trans hnft')]
  · exact fun hq => ⟨nft, h, hq⟩

/-- What is waiting goes on doing so where the record is kept, or written
over by one that waits as well. -/
theorem Sent.pending {old new : AccountId} (h : Sent o x newOwner old new nft nft' s s')
    (hp : nft.pending = true) : nft'.pending = true := by
  by_cases hap : ApprovalRequired s o newOwner
  · rw [h.unapproved hap]
  · rw [h.approved hap]
    exact hp

/-- **Only an acceptance takes the flag off.** -/
theorem Outcome.confirmed (hs : Sound s) (h : Outcome s s' act) (hx : Marks s x True)
    (hx' : Marks s' x False) :
    ∃ o newOwner, act = .signed o (.acceptNft x newOwner) ∧ RootOwner s x o := by
  obtain ⟨was, hwas, hpending⟩ := hx
  have hset : was.pending = true := hpending.2 trivial
  obtain ⟨is, his, hclear⟩ := hx'
  have hunset : is.pending ≠ true := hclear.1
  have hkeep : s'.nfts = s.nfts → False := by
    intro hn
    obtain rfl : was = is := Option.some.inj (hwas.symm.trans (hn ▸ his))
    exact hunset hset
  have hmint : ∀ {z a nft}, Minted z a nft s s' → False := fun {z a nft} hm => by
    have hxz : x ≠ z := by
      rintro rfl
      simp [(Minted.absent hs hm).nfts] at hwas
    rw [hm.nfts, StorageMap.insert_of_ne hxz, hwas] at his
    exact hunset (Option.some.inj his ▸ hset)
  have hsent : ∀ {o z newOwner old new nft nft'}, Sent o z newOwner old new nft nft' s s' → False :=
    fun {o z newOwner old new nft nft'} hm => by
      by_cases hxz : x = z
      · subst hxz
        rw [hm.nfts, StorageMap.insert_self, Option.some.injEq] at his
        obtain rfl : nft = was := Option.some.inj (hm.nfts_eq.symm.trans hwas)
        exact hunset (his ▸ hm.pending hset)
      · rw [hm.nfts, StorageMap.insert_of_ne hxz, hwas] at his
        exact hunset (Option.some.inj his ▸ hset)
  have hburn : ∀ {z q}, Destroyed z q s s' → False := fun {z q} hd => by
    by_cases hb : Below s z x
    · rw [hd.nfts_below x hb] at his
      cases his
    · rw [hd.nfts_else x hb, hwas] at his
      exact hunset (Option.some.inj his ▸ hset)
  have hwired : ∀ {z k r}, Wired z k r s s' → False := fun {z k r} hw => by
    rw [hw.nfts, StorageMap.mutate_apply] at his
    split at his
    · next hxz =>
        subst hxz
        rw [hwas, Option.map_some, Option.some.injEq] at his
        exact hunset (his ▸ hset)
    · exact hunset (Option.some.inj (hwas.symm.trans his) ▸ hset)
  cases h with
  | silent _ h => exact (hkeep h.nfts).elim
  | noted _ h => exact (hkeep h.nfts).elim
  | mintNft _ _ h => exact (hmint h).elim
  | mintNftDirectlyToNft _ _ _ h => exact (hmint h).elim
  | send h => exact (hsent h).elim
  | @acceptNft o z newOwner new nft h =>
      by_cases hxz : x = z
      · subst hxz
        exact ⟨o, newOwner, rfl, h.root⟩
      · rw [h.nfts, StorageMap.insert_of_ne hxz, hwas] at his
        exact (hunset (Option.some.inj his ▸ hset)).elim
  | burnNft _ h => exact (hburn h).elim
  | rejectNft _ _ h => exact (hburn h).elim
  | unequip h => exact (hwired h).elim
  | equip h => exact (hwired h).elim
  | list _ _ _ h => exact (hkeep h.nfts).elim
  | unlist _ h => exact (hkeep h.nfts).elim
  | buy _ _ _ h => exact (hsent h).elim
  | acceptOffer _ h => exact (hsent h).elim

/-- The flag of an NFT sent to an account is the one it had. -/
theorem Sent.marks_account {old new : AccountId} {q : Prop}
    (h : Sent o x (.accountId a) old new nft nft' s s') : Marks s' x q ↔ Marks s x q := by
  have hnft' := h.approved fun hap => hap
  rw [marks_iff h.nfts_eq, marks_iff (by rw [h.nfts, StorageMap.insert_self]), hnft']

/-- That of an NFT sent to an NFT of the sender's is too, and that of one
sent to another's is set. -/
theorem Sent.marks_nft {old new : AccountId} {cid : CollectionId} {nid : NftId}
    (h : Sent o x (.collectionAndNftTuple cid nid) old new nft nft' s s') :
    Marks s' x (¬ RootOwner s (cid, nid) o) ↔ (RootOwner s (cid, nid) o → Marks s x False) := by
  rw [marks_iff h.nfts_eq, marks_iff (by rw [h.nfts, StorageMap.insert_self])]
  by_cases hroot : RootOwner s (cid, nid) o
  · have hnft' := h.approved fun hap => hap hroot
    simp only [hnft', hroot, not_true_eq_false, forall_true_left]
  · have hnft' := h.unapproved hroot
    simp [hnft', hroot]

/-- What is minted into an NFT is marked right. -/
theorem marks_of_mint {c : CollectionId} {rr : Option AccountId} {r : Option Permill}
    {md : BoundedString} {tr : Bool} {res : Option (List ResourceTypes)}
    (h : Core.mintNftDirectlyToNft o p c rr r md tr res s = .ok () s') :
    Marks s' (c, s.nextNftId c) (¬ RootOwner s p o) := by
  obtain ⟨n, col, s₁, s₂, b, w, hid, hroot, hrec, -, h⟩ := Core.mintNftDirectlyToNft_parts h
  obtain ⟨⟨rfl, -, -⟩, -, -⟩ := Core.claimNftId_checks hid
  obtain ⟨cols, hs₂⟩ := Core.recordNft_ok hrec
  have hnfts := (Core.addResources_ok h).nfts
  rw [hs₂] at hnfts
  refine ⟨_, by rw [hnfts]; exact StorageMap.insert_self, ?_⟩
  rw [decide_eq_true_eq]
  exact not_congr ⟨fun hb => hb ▸ hroot, fun ho => hroot.unique ho⟩

/-- **A step keeps the protocol if and only if the flag of what it sends
was right.** -/
theorem approves_iff (hr : Reachable s) (hstep : Step s act s') :
    Approves s act s' ↔ FlaggedRight s act := by
  have hsound := Reachable.sound hr
  have hrest : (∀ o x newOwner, act ≠ .signed o (.send x newOwner)) → Approves s act s' :=
    fun hne => {
      sentUnder := fun o x newOwner y hact => absurd hact (hne o x newOwner)
      mintedUnder := by
        rintro o y c rr r md tr res rfl
        exact marks_of_mint hstep
      sentAway := fun o x a hact => absurd hact (hne o x _)
      confirmed := fun x hx hx' _ => hstep.outcome.confirmed hsound hx hx' }
  unfold FlaggedRight
  split
  · next o x a =>
      obtain ⟨old, new, nft, nft', hsent, -⟩ := Core.send_ok hstep
      rw [← hsent.marks_account]
      constructor
      · intro h
        cases hy : decodeNftAccountId a with
        | none => simpa using h.sentAway o x a rfl hy
        | some y => simpa using h.sentUnder o x (.accountId a) y rfl hy
      · intro hm
        refine ⟨?_, fun _ _ _ _ _ _ _ _ hact => (nomatch hact), ?_, ?_⟩
        · rintro _ _ _ y ⟨⟩ hy
          simpa [show decodeNftAccountId a = some y from hy] using hm
        · rintro _ _ _ ⟨⟩ hy
          simpa [hy] using hm
        · exact fun z hz hz' _ => hstep.outcome.confirmed hsound hz hz'
  · next o x cid nid =>
      obtain ⟨old, new, nft, nft', hsent, -⟩ := Core.send_ok hstep
      have hdecode : decodeNftAccountId
          (AccountIdOrCollectionNftTuple.collectionAndNftTuple cid nid).account =
            some (cid, nid) := decodeNftAccountId_eq_some_iff.2 rfl
      rw [← hsent.marks_nft]
      constructor
      · exact fun h => h.sentUnder o x _ (cid, nid) rfl hdecode
      · intro hm
        refine ⟨?_, fun _ _ _ _ _ _ _ _ hact => (nomatch hact),
          fun _ _ _ hact => (nomatch hact), ?_⟩
        · rintro _ _ _ y ⟨⟩ hy
          exact Option.some.inj (hdecode.symm.trans hy) ▸ hm
        · exact fun z hz hz' _ => hstep.outcome.confirmed hsound hz hz'
  · next hne₁ hne₂ =>
      refine iff_of_true (hrest fun o x newOwner hact => ?_) trivial
      cases newOwner with
      | accountId a => exact hne₁ o x a hact
      | collectionAndNftTuple cid nid => exact hne₂ o x cid nid hact

namespace Mock

/-- Alice has an NFT, and Bob has one. -/
def oneEach : List Extrinsic :=
  [(alice, mintTo alice), (alice, mintTo bob), (alice, newCollection)]

theorem reachable_oneEach : Reachable (replay oneEach) := reachable_replay (by decide +kernel)

theorem not_rootOwner_oneEach : ¬ RootOwner (replay oneEach) (0, 0) alice := by
  intro h
  have howner : (replay oneEach).owner (0, 0) = some bob := by decide +kernel
  exact absurd ((rootOwner_of_owner howner (by decide +kernel)).1 h) (by decide +kernel)

/-- Alice sends hers to the account of Bob's. -/
def toAccount : Extrinsic := (alice, .send (0, 1) (.accountId (nftToAccountId (0, 0))))

/-- **What nobody has to approve**: it is under Bob's NFT, and not
pending. -/
theorem not_approves_of_run : ¬ ∀ (s : State Storage) (act : Act Storage) (s' : State Storage),
    Reachable s → Step s act s' → Approves s act s' := by
  intro hall
  have hstep :
      Step (replay oneEach) (.signed toAccount.1 toAccount.2) (replay (toAccount :: oneEach)) :=
    step_apply (by decide +kernel)
  have h := hall _ _ _ reachable_oneEach hstep
  obtain ⟨nft, hnft, hpending⟩ := h.sentUnder alice (0, 1) _ (0, 0) rfl (by decide +kernel)
  have hunset : ((replay (toAccount :: oneEach)).nfts (0, 1)).map NftInfo.pending = some false := by
    decide +kernel
  rw [hnft, Option.map_some, Option.some.injEq] at hunset
  have hset := hpending.2 not_rootOwner_oneEach
  simp [hunset] at hset

/-- Alice sends hers to Bob's, by its name. -/
def toNft : Extrinsic := (alice, .send (0, 1) (.collectionAndNftTuple 0 0))

theorem approves_toNft :
    Approves (replay oneEach) (.signed toNft.1 toNft.2) (replay (toNft :: oneEach)) :=
  (approves_iff reachable_oneEach (step_apply (by decide +kernel))).2
    fun hroot => absurd hroot not_rootOwner_oneEach

end Mock

end Rmrk
