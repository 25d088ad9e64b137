import Rmrk.Helpers.Books
import Rmrk.Helpers.Counts
import Rmrk.Helpers.Steps
/-!
# What a step does to the collections

The collections, their counts and the identifiers they have issued, by the
label of the step: a mint adds an NFT and counts it, a burn or a rejection
counts down, four calls write a collection and no NFT, and the rest
neither.
-/

namespace Rmrk

open Effect Relation

variable {W : Type} {s s' t : State W} {x y p : NftKey} {o a : AccountId} {c : CollectionId}
variable {u : Unit}

/-! ## Issuers -/

/-- The issuer of a collection, where there is a record of one. -/
def State.issuer (s : State W) : CollectionId → Option AccountId :=
  Option.map CollectionInfo.issuer ∘ s.collections

theorem isSome_issuer : (s.issuer c).isSome = (s.collections c).isSome := by simp [State.issuer]

/-- It is the one of the record. -/
theorem issuer_of_eq {col : CollectionInfo} (h : s.collections c = some col) :
    s.issuer c = some col.issuer := congrArg (Option.map _) h

/-- A record put in brings its issuer. -/
theorem issuer_insert {col : CollectionInfo} (h : s'.collections = s.collections.insert c col) :
    s'.issuer = Function.update s.issuer c (some col.issuer) := by
  rw [State.issuer, h, StorageMap.insert, Function.comp_update]
  rfl

/-! ## The effects -/

/-- **The collections are as they were.** -/
structure SameRegister (s s' : State W) : Prop where
  collections : s'.collections = s.collections
  collectionIndex : s'.collectionIndex = s.collectionIndex

/-- **No NFT has come or gone.** -/
structure SamePresence (s s' : State W) : Prop where
  nfts : ∀ z, s'.nfts z = none ↔ s.nfts z = none
  nextNftId : s'.nextNftId = s.nextNftId

/-- An NFT has been minted into `c`, and counted. -/
structure Counting (c : CollectionId) (s s' : State W) : Prop where
  room : (s.nextNftId c).toNat + 1 < UInt32.size
  nextNftId : s'.nextNftId = Function.update s.nextNftId c (s.nextNftId c + 1)
  nfts : ∃ nft, s'.nfts = s.nfts.insert (c, s.nextNftId c) nft
  collections : ∃ col, s.collections c = some col ∧ (∀ m, col.max = some m → s.nextNftId c < m) ∧
    col.nftsCount.toNat + 1 < UInt32.size ∧
    s'.collections = s.collections.insert c { col with nftsCount := col.nftsCount + 1 }
  collectionIndex : s'.collectionIndex = s.collectionIndex

/-- What the index reaches from `x` has been burned, and counted down as a
burn in `t` comes to it. -/
structure CountingDown (x : NftKey) (t s s' : State W) : Prop where
  nfts_below : ∀ y, Below s x y → s'.nfts y = none
  nextNftId : s'.nextNftId = s.nextNftId
  collectionIndex : s'.collectionIndex = s.collectionIndex
  subset : ∀ a, t.children a ⊆ s.children a
  tallied : ∃ l, (∀ z ∈ l, ReflTransGen (Drains t x) x z) ∧ Counted l s s' ∧
    (TreeAt (Drains t x) x → l.Nodup)

/-- What a burn comes to is below what it burns. -/
theorem CountingDown.below (h : CountingDown x t s s') (hy : ReflTransGen (Drains t x) x y) :
    Below s x y := by
  have hbelow : Below t x y := ReflTransGen.mono (fun _ _ => Drains.lists) _ _ hy
  exact Below.mono h.subset hbelow

instance sameRegisterRefl : Std.Refl (SameRegister (W := W)) := ⟨fun _ => ⟨rfl, rfl⟩⟩

instance sameRegisterTrans : IsTrans (State W) SameRegister where
  trans _ _ _ h h' :=
    ⟨h'.collections.trans h.collections, h'.collectionIndex.trans h.collectionIndex⟩

/-- What leaves the books alone leaves the collections alone. -/
theorem SameBooks.register (h : SameBooks s s') : SameRegister s s' :=
  ⟨h.collections, h.collectionIndex⟩

variable [Config W]

/-! ## The calls that keep the collections -/

namespace Core

/-- **A send is not counted.** -/
theorem send_register {newOwner : AccountIdOrCollectionNftTuple} :
    Within SameRegister (send o x newOwner : M W Unit) :=
  within_send (fun _ _ => ⟨rfl, rfl⟩) (fun _ _ _ _ _ => ⟨rfl, rfl⟩) fun _ _ => ⟨rfl, rfl⟩

/-- Nor is an acceptance. -/
theorem acceptNft_register {newOwner : AccountIdOrCollectionNftTuple} :
    Within SameRegister (acceptNft o x newOwner : M W Unit) :=
  within_acceptNft (fun _ _ => ⟨rfl, rfl⟩) fun _ _ _ _ _ => ⟨rfl, rfl⟩

end Core

namespace Market

/-- Nor is a sale. -/
theorem doBuy_register {buyer : AccountId} {amount : Option Balance} {isOffer : Bool} :
    Within SameRegister (doBuy buyer x amount isOffer : M W Unit) :=
  within_doBuy (fun _ _ => ⟨rfl, rfl⟩) (fun _ _ => ⟨rfl, rfl⟩) (fun _ _ _ _ _ => ⟨rfl, rfl⟩)
    fun _ => Core.send_register

/-- An offer makes no NFT. -/
theorem makeOffer_register {v : Balance} {e : Option BlockNumber} :
    Within SameRegister (makeOffer o x v e : M W Unit) :=
  within_makeOffer (fun _ _ => ⟨rfl, rfl⟩) fun _ _ _ _ => ⟨rfl, rfl⟩

/-- Nor does taking it back. -/
theorem withdrawOffer_register : Within SameRegister (withdrawOffer o x : M W Unit) :=
  within_withdrawOffer (fun _ _ => ⟨rfl, rfl⟩) fun _ _ _ => ⟨rfl, rfl⟩

/-- Nor does accepting it. -/
theorem acceptOffer_register {offerer : AccountId} :
    Within SameRegister (acceptOffer o x offerer : M W Unit) :=
  within_acceptOffer (fun _ _ => ⟨rfl, rfl⟩) (fun _ _ _ => ⟨rfl, rfl⟩) fun _ => doBuy_register

end Market

/-- The extrinsics that write the collections. -/
def Call.registers : Call W → Bool
  | .mintNft .. | .mintNftDirectlyToNft .. | .createCollection .. | .burnNft ..
  | .destroyCollection .. | .rejectNft .. | .changeCollectionIssuer .. | .lockCollection .. => true
  | _ => false

/-- The steps that do. -/
def Act.registers : Act W → Bool
  | .signed _ c => c.registers
  | .between .. => false

/-- **The other extrinsics leave the collections as they were.** -/
theorem Step.sameRegister {act : Act W} (h : Step s act s') (hact : act.registers = false) :
    SameRegister s s' := by
  cases act with
  | between n w =>
      obtain ⟨-, -, rfl⟩ := h
      exact ⟨rfl, rfl⟩
  | signed o call =>
      change dispatch o call s = .ok () s' at h
      by_cases hbooked : call.booked = false
      · exact (dispatch_books hbooked _ _ _ h).register
      · cases call with
        | send => exact Core.send_register _ _ _ h
        | acceptNft => exact Core.acceptNft_register _ _ _ h
        | buy => exact Market.doBuy_register.transactional _ _ _ h
        | makeOffer => exact Market.makeOffer_register _ _ _ h
        | withdrawOffer => exact Market.withdrawOffer_register _ _ _ h
        | acceptOffer => exact Market.acceptOffer_register _ _ _ h
        | _ =>
            first
              | exact absurd rfl hbooked
              | exact nomatch (show true = false from hact)

/-! ## The calls that write them -/

/-- The state a rejection burns `x` in: the entry under the parent is
gone. -/
def State.disowned (s : State W) (x : NftKey) : State W :=
  match s.parent x with
  | some p => { s with children := Function.update s.children p ((s.children p).erase x) }
  | none => s

/-- The state a step burns in. -/
def Act.burnsIn (s : State W) : Act W → State W
  | .signed _ (.rejectNft x) => s.disowned x
  | _ => s

namespace Core

/-- Both mints count the NFT they record. -/
theorem counting_of_parts {n : NftId} {col : CollectionInfo} {nft : NftInfo}
    {l : Option (List ResourceTypes)} {s₁ s₂ : State W} {w : W} {v : Unit}
    (hid : claimNftId c s = .ok (n, col) s₁) (hrec : recordNft (c, n) col nft s₁ = .ok v s₂)
    (h : addResources o (c, n) l { s₂ with ext := w } = .ok u s') : Counting c s s' := by
  obtain ⟨⟨rfl, hroom, rfl⟩, hcol, hmax⟩ := claimNftId_checks hid
  obtain ⟨hcount, current, hcurrent, rfl⟩ := recordNft_counts hrec
  obtain rfl : col = current := Option.some.inj (hcol.symm.trans hcurrent)
  have hbooks := addResources_books _ _ _ h
  have hnoted := addResources_ok h
  exact {
    room := hroom
    nextNftId := hnoted.nextNftId
    nfts := ⟨nft, hnoted.nfts⟩
    collections := ⟨col, hcol, hmax, hcount, hbooks.collections⟩
    collectionIndex := hbooks.collectionIndex }

/-- A burn counts down; what goes on around it does not. -/
theorem countingDown_of_burn {k : ℕ} {q : Option NftKey} {w : W}
    (h : nftBurn k x t = .ok u s') (hd : Destroyed x q s { s' with ext := w })
    (ht : ∀ a, t.children a ⊆ s.children a) (hcols : t.collections = s.collections)
    (hnfts : t.nfts = s.nfts) (hindex : t.collectionIndex = s.collectionIndex) :
    CountingDown x t s { s' with ext := w } := by
  obtain ⟨l, hl⟩ := nftBurn_tallied h
  have hun := congrArg State.collectionIndex (nftBurn_ok h).unburned
  exact {
    nfts_below := hd.nfts_below
    nextNftId := hd.nextNftId
    collectionIndex := hun.trans hindex
    subset := ht
    tallied := ⟨l, hl.reached,
      ⟨fun c => by rw [← hcols]; exact hl.counted.collections c,
        fun y hy => by rw [← hnfts]; exact hl.counted.nfts y hy⟩, hl.nodup⟩ }

/-- A burn counts down in the state it finds. -/
theorem burnNft_register {k : UInt32} (h : burnNft o x k s = .ok u s') :
    CountingDown x s s s' := by
  have hd := (burnNft_ok h).2.1
  simp only [burnNft, transactional_ok, lookupRootOwner_bind_ok, ensure_bind_ok] at h
  obtain ⟨r, root, -, -, h⟩ := h
  rw [bind_ok] at h
  obtain ⟨_, s₁, hburn, h⟩ := h
  obtain ⟨w, -, rfl⟩ := external_ok.1 h
  exact countingDown_of_burn hburn hd (fun _ => Finset.Subset.refl _) rfl rfl rfl

/-- A rejection does in that without the entry of what it rejects. -/
theorem rejectNft_register (h : rejectNft o x s = .ok u s') :
    CountingDown x (s.disowned x) s s' := by
  have hd := (rejectNft_ok h).2.2.1
  simp only [rejectNft, transactional_ok, nftReject, get_bind_ok, okOr_bind_ok,
    lookupRootOwner_bind_ok, ensure_bind_ok] at h
  obtain ⟨r, root, -, nft, -, -, -, h⟩ := h
  unfold State.disowned
  cases hparent : s.parent x with
  | none =>
      rw [hparent] at h
      exact countingDown_of_burn h hd (fun _ => Finset.Subset.refl _) rfl rfl rfl
  | some q =>
      simp only [hparent, removeChild, update_bind_ok] at h
      refine countingDown_of_burn h hd (fun a => ?_) rfl rfl rfl
      by_cases ha : a = q
      · subst ha; simp [Finset.erase_subset]
      · simp [ha]

end Core

/-! ## Every step -/

/-- The collection a step mints into. -/
def Act.mintsInto : Act W → Option CollectionId
  | .signed _ (.mintNft _ c ..) | .signed _ (.mintNftDirectlyToNft _ c ..) => some c
  | _ => none

/-- The NFT a step burns or rejects. -/
def Act.destroys : Act W → Option NftKey
  | .signed _ (.burnNft x _) | .signed _ (.rejectNft x) => some x
  | _ => none

/-- **What a step does to the collections**, by its label. -/
inductive Registered (s s' : State W) : Act W → Prop
  | same {act : Act W} (hact : act.registers = false) (h : SameRegister s s')
      (hp : SamePresence s s') : Registered s s' act
  | minted {act : Act W} {c : CollectionId} (hact : act.mintsInto = some c)
      (h : Counting c s s') : Registered s s' act
  | created {o : AccountId} {md sy : BoundedString} {max : Option UInt32}
      (hroom : s.collectionIndex ≠ 4294967295)
      (hindex : s'.collectionIndex = s.collectionIndex + 1)
      (hcols : s'.collections = s.collections.insert s.collectionIndex
        { issuer := o, metadata := md, max, symbol := sy, nftsCount := 0 })
      (hp : SamePresence s s') : Registered s s' (.signed o (.createCollection md max sy))
  | destroyed {o : AccountId} {c : CollectionId} (hindex : s'.collectionIndex = s.collectionIndex)
      (hcols : s'.collections = s.collections.remove c) (hp : SamePresence s s') :
      Registered s s' (.signed o (.destroyCollection c))
  | issuerChanged {o a : AccountId} {c : CollectionId} {source : Config.Source W}
      (hindex : s'.collectionIndex = s.collectionIndex)
      (hcols : s'.collections = s.collections.mutate c fun col => { col with issuer := a })
      (hp : SamePresence s s') : Registered s s' (.signed o (.changeCollectionIssuer c source))
  | locked {o : AccountId} {c : CollectionId} {col : CollectionInfo}
      (hindex : s'.collectionIndex = s.collectionIndex) (hcol : s.collections c = some col)
      (hcols : s'.collections = s.collections.insert c { col with max := some col.nftsCount })
      (hp : SamePresence s s') : Registered s s' (.signed o (.lockCollection c))
  | burned {act : Act W} {x : NftKey} (hact : act.destroys = some x)
      (h : CountingDown x (act.burnsIn s) s s') : Registered s s' act

/-- What writes no collection mints nothing. -/
theorem Act.mintsInto_of_registers {act : Act W} (hact : act.registers = false) :
    act.mintsInto = none := by
  cases act with
  | between => rfl
  | signed o call => cases call <;> first | rfl | exact nomatch (show true = false from hact)

/-- And destroys nothing. -/
theorem Act.destroys_of_registers {act : Act W} (hact : act.registers = false) :
    act.destroys = none := by
  cases act with
  | between => rfl
  | signed o call => cases call <;> first | rfl | exact nomatch (show true = false from hact)

/-- What destroys does not mint. -/
theorem Act.mintsInto_of_destroys {act : Act W} (hact : act.destroys = some x) :
    act.mintsInto = none := by
  cases act with
  | between => rfl
  | signed o call => cases call <;> first | rfl | exact nomatch (show none = some x from hact)

/-- No collection has been put in, and none has lost or gained an NFT: if
one has been written over it keeps its count, and its maximum or the count
in its place. -/
structure Rewritten (s s' : State W) : Prop where
  presence : SamePresence s s'
  collectionIndex : s'.collectionIndex = s.collectionIndex
  collections : ∀ c col', s'.collections c = some col' → ∃ col, s.collections c = some col ∧
    col'.nftsCount = col.nftsCount ∧ (col'.max = col.max ∨ col'.max = some col.nftsCount)

/-- A collection has been put in, under the next number and with nothing
in it. -/
structure Founded (s s' : State W) : Prop where
  presence : SamePresence s s'
  room : s.collectionIndex ≠ 4294967295
  collectionIndex : s'.collectionIndex = s.collectionIndex + 1
  collections : ∃ col : CollectionInfo, col.nftsCount = 0 ∧
    s'.collections = s.collections.insert s.collectionIndex col

/-- **A step mints, founds a collection or burns**, and else it writes over
what is there. -/
theorem Registered.split {act : Act W} (h : Registered s s' act) :
    (∃ c, act.mintsInto = some c ∧ Counting c s s') ∨
      (act.mintsInto = none ∧ Founded s s') ∨
      (∃ x, act.destroys = some x ∧ CountingDown x (act.burnsIn s) s s') ∨
      (act.mintsInto = none ∧ Rewritten s s') := by
  cases h with
  | same hact h hp =>
      refine .inr (.inr (.inr ⟨Act.mintsInto_of_registers hact, hp, h.collectionIndex,
        fun c col hcol => ⟨col, ?_, rfl, .inl rfl⟩⟩))
      rwa [← h.collections]
  | minted hact h => exact .inl ⟨_, hact, h⟩
  | created hroom hindex hcols hp =>
      exact .inr (.inl ⟨rfl, hp, hroom, hindex, _, rfl, hcols⟩)
  | destroyed hindex hcols hp =>
      refine .inr (.inr (.inr ⟨rfl, hp, hindex, fun c col hcol => ⟨col, ?_, rfl, .inl rfl⟩⟩))
      rw [hcols] at hcol
      exact (StorageMap.remove_eq_some_iff.1 hcol).2
  | issuerChanged hindex hcols hp =>
      refine .inr (.inr (.inr ⟨rfl, hp, hindex, fun c col' hcol' => ?_⟩))
      rw [hcols] at hcol'
      obtain ⟨col, hcol, rfl | rfl⟩ := StorageMap.exists_of_mutate_eq_some hcol'
      · exact ⟨_, hcol, rfl, .inl rfl⟩
      · exact ⟨col, hcol, rfl, .inl rfl⟩
  | locked hindex hcol hcols hp =>
      refine .inr (.inr (.inr ⟨rfl, hp, hindex, fun c col' hcol' => ?_⟩))
      rw [hcols] at hcol'
      rcases StorageMap.insert_eq_some_iff.1 hcol' with ⟨rfl, rfl⟩ | ⟨-, hcol'⟩
      · exact ⟨_, hcol, rfl, .inr rfl⟩
      · exact ⟨col', hcol', rfl, .inl rfl⟩
  | burned hact h => exact .inr (.inr (.inl ⟨_, hact, h⟩))

/-- A mint is counted where it is minted into. -/
theorem Registered.counting {act : Act W} (h : Registered s s' act)
    (hact : act.mintsInto = some c) : Counting c s s' := by
  rcases h.split with ⟨d, hd, h⟩ | ⟨hno, -⟩ | ⟨y, hy, -⟩ | ⟨hno, -⟩
  · rw [hact, Option.some.injEq] at hd
    exact hd ▸ h
  · simp [hno] at hact
  · simp [Act.mintsInto_of_destroys hy] at hact
  · simp [hno] at hact

omit [Config W] in
/-- A record written over is there as before. -/
theorem SamePresence.of_insert {nft nft' : NftInfo} (hx : s.nfts x = some nft)
    (hnfts : s'.nfts = s.nfts.insert x nft') (hnext : s'.nextNftId = s.nextNftId) :
    SamePresence s s' := by
  refine ⟨fun z => ?_, hnext⟩
  rw [hnfts]
  by_cases hz : z = x
  · subst hz; simp [hx]
  · simp [hz]

omit [Config W] in
theorem SamePresence.of_eq (hnfts : s'.nfts = s.nfts) (hnext : s'.nextNftId = s.nextNftId) :
    SamePresence s s' :=
  ⟨fun z => by rw [hnfts], hnext⟩

/-- Only mints, burns and rejections change what NFTs there are. -/
theorem Outcome.samePresence {act : Act W} (h : Outcome s s' act) (hmint : act.mintsInto = none)
    (hburn : act.destroys = none) : SamePresence s s' := by
  cases h with
  | silent _ h => exact .of_eq h.nfts h.nextNftId
  | noted _ h => exact .of_eq h.nfts h.nextNftId
  | mintNft => simp [Act.mintsInto] at hmint
  | mintNftDirectlyToNft => simp [Act.mintsInto] at hmint
  | send h => exact .of_insert h.nfts_eq h.nfts h.nextNftId
  | acceptNft h => exact .of_insert h.nfts_eq h.nfts h.nextNftId
  | burnNft => simp [Act.destroys] at hburn
  | rejectNft => simp [Act.destroys] at hburn
  | unequip h => exact ⟨fun z => by rw [h.nfts, StorageMap.mutate_eq_none_iff], h.nextNftId⟩
  | equip h => exact ⟨fun z => by rw [h.nfts, StorageMap.mutate_eq_none_iff], h.nextNftId⟩
  | list _ _ _ h => exact .of_eq h.nfts h.nextNftId
  | unlist _ h => exact .of_eq h.nfts h.nextNftId
  | buy _ _ _ h => exact .of_insert h.nfts_eq h.nfts h.nextNftId
  | acceptOffer _ h => exact .of_insert h.nfts_eq h.nfts h.nextNftId

/-- **Every step has its effect on the collections.** -/
theorem Step.registered {act : Act W} (hstep : Step s act s') : Registered s s' act := by
  have hp : act.mintsInto = none → act.destroys = none → SamePresence s s' :=
    hstep.outcome.samePresence
  by_cases hact : act.registers = false
  · exact .same hact (hstep.sameRegister hact)
      (hp (Act.mintsInto_of_registers hact) (Act.destroys_of_registers hact))
  · cases act with
    | between => exact absurd rfl hact
    | signed o call =>
        have h : dispatch o call s = .ok () s' := hstep
        cases call with
        | mintNft =>
            obtain ⟨n, col, s₁, s₂, w, hid, hrec, -, h⟩ := Core.mintNft_parts h
            exact .minted rfl (Core.counting_of_parts hid hrec h)
        | mintNftDirectlyToNft =>
            obtain ⟨n, col, s₁, s₂, b, w, hid, -, hrec, -, h⟩ := Core.mintNftDirectlyToNft_parts h
            exact .minted rfl (Core.counting_of_parts hid hrec h)
        | createCollection =>
            obtain ⟨hroom, w, -, rfl⟩ := Core.createCollection_writes h
            exact .created hroom rfl rfl (hp rfl rfl)
        | burnNft => exact .burned rfl (Core.burnNft_register h)
        | destroyCollection =>
            obtain ⟨-, d, w, -, rfl⟩ := Core.destroyCollection_writes h
            exact .destroyed rfl rfl (hp rfl rfl)
        | rejectNft => exact .burned rfl (Core.rejectNft_register h)
        | changeCollectionIssuer =>
            obtain ⟨col, a, w, -, -, -, rfl⟩ := Core.changeCollectionIssuer_writes h
            exact .issuerChanged rfl rfl (hp rfl rfl)
        | lockCollection =>
            obtain ⟨col, hcol, rfl⟩ := Core.lockCollection_writes h
            exact .locked rfl hcol rfl (hp rfl rfl)
        | _ => exact absurd rfl hact

end Rmrk
