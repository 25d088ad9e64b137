import Rmrk.Common.Ages
import Rmrk.Helpers.Catalog
import Rmrk.Helpers.Issued
import Rmrk.Helpers.Orderly
import Rmrk.Helpers.Stock
import Rmrk.Properties.Indexer
/-!
# What stays as it is

Any two states of a run are related: what was there at the earlier one, if
it is there at the later one, is the same NFT, the same resource, the same
collection, base and part, and has changed in a few of its fields only,
and what had gone has stayed away. What an indexer, a wallet or a market
has read once it need not read again.
-/

namespace Rmrk

open Counter Effect

variable {W : Type} [Config W] {s s' t : State W} {act : Act W} {h : List (State W × Act W)}

/-! ## What an entry keeps -/

/-- An NFT is sent, accepted and equipped; what it was minted as stays. -/
structure NftInfo.Kept (a b : NftInfo) : Prop where
  royalty : b.royalty = a.royalty
  metadata : b.metadata = a.metadata
  transferable : b.transferable = a.transferable

/-- A resource is accepted once, and its removal asked for once. -/
structure ResourceInfo.Kept (a b : ResourceInfo) : Prop where
  id : b.id = a.id
  resource : b.resource = a.resource
  pending : b.pending = true → a.pending = true
  pendingRemoval : a.pendingRemoval = true → b.pendingRemoval = true

/-- A collection is handed over and counts; its maximum only goes down. -/
structure CollectionInfo.Kept (a b : CollectionInfo) : Prop where
  metadata : b.metadata = a.metadata
  symbol : b.symbol = a.symbol
  max : ∀ m, a.max = some m → ∃ m', b.max = some m' ∧ m' ≤ m

/-- A base is handed over. -/
structure BaseInfo.Kept (a b : BaseInfo) : Prop where
  baseType : b.baseType = a.baseType
  symbol : b.symbol = a.symbol
  parts : b.parts = a.parts

/-- A part is what it was, but for the list of a slot. -/
def PartType.Kept (a b : PartType) : Prop := b.withEquippable .empty = a.withEquippable .empty

/-- **`s'` is a later state of what `s` is a state of.** -/
structure Later (s s' : State W) : Prop where
  nfts : Ages NftInfo.Kept (fun x => x.2 < s.nextNftId x.1) (fun x => x.2 < s'.nextNftId x.1)
    s.nfts s'.nfts
  resources : Ages ResourceInfo.Kept (fun k => k.2 < s.nextResourceId k.1)
    (fun k => k.2 < s'.nextResourceId k.1) s.resources s'.resources
  collections : Ages CollectionInfo.Kept (fun c => c < s.collectionIndex)
    (fun c => c < s'.collectionIndex) s.collections s'.collections
  bases : Ages BaseInfo.Kept (fun b => b < s.nextBaseId) (fun b => b < s'.nextBaseId)
    s.bases s'.bases
  parts : Ages PartType.Kept (fun k => k.1 < s.nextBaseId) (fun k => k.1 < s'.nextBaseId)
    s.parts s'.parts
  /-- No base, part or theme goes. -/
  bases_stay : ∀ b, (s.bases b).isSome = true → (s'.bases b).isSome = true
  parts_stay : ∀ k, (s.parts k).isSome = true → (s'.parts k).isSome = true
  themes_stay : ∀ k, (s.themeOf k).isSome = true → (s'.themeOf k).isSome = true
  blockNumber : s.blockNumber ≤ s'.blockNumber

section Kept

/-- What nothing was done to has kept everything. -/
theorem NftInfo.Kept.refl (a : NftInfo) : a.Kept a := ⟨rfl, rfl, rfl⟩

/-- And keeping is transitive, for each kind of record. -/
theorem NftInfo.Kept.trans (a b c : NftInfo) (h : a.Kept b) (h' : b.Kept c) : a.Kept c :=
  ⟨h'.royalty.trans h.royalty, h'.metadata.trans h.metadata,
    h'.transferable.trans h.transferable⟩

theorem ResourceInfo.Kept.refl (a : ResourceInfo) : a.Kept a := ⟨rfl, rfl, fun h => h, fun h => h⟩

/-- A mark that went off stays off, one that went on stays on. -/
theorem ResourceInfo.Kept.trans (a b c : ResourceInfo) (h : a.Kept b) (h' : b.Kept c) : a.Kept c :=
  ⟨h'.id.trans h.id, h'.resource.trans h.resource, h.pending ∘ h'.pending,
    h'.pendingRemoval ∘ h.pendingRemoval⟩

/-- The count and the issuer are free to change. -/
theorem CollectionInfo.Kept.of_max {a b : CollectionInfo} (hmd : b.metadata = a.metadata)
    (hsy : b.symbol = a.symbol) (hmax : b.max = a.max) : a.Kept b :=
  ⟨hmd, hsy, fun m hm => ⟨m, hmax.trans hm, UInt32.le_refl m⟩⟩

theorem CollectionInfo.Kept.refl (a : CollectionInfo) : a.Kept a := .of_max rfl rfl rfl

/-- The maxima go down one below the other. -/
theorem CollectionInfo.Kept.trans (a b c : CollectionInfo) (h : a.Kept b) (h' : b.Kept c) :
    a.Kept c where
  metadata := h'.metadata.trans h.metadata
  symbol := h'.symbol.trans h.symbol
  max m hm := by
    obtain ⟨m', hm', hle⟩ := h.max m hm
    obtain ⟨m'', hm'', hle'⟩ := h'.max m' hm'
    exact ⟨m'', hm'', UInt32.le_trans hle' hle⟩

theorem BaseInfo.Kept.refl (a : BaseInfo) : a.Kept a := ⟨rfl, rfl, rfl⟩

theorem BaseInfo.Kept.trans (a b c : BaseInfo) (h : a.Kept b) (h' : b.Kept c) : a.Kept c :=
  ⟨h'.baseType.trans h.baseType, h'.symbol.trans h.symbol, h'.parts.trans h.parts⟩

theorem PartType.Kept.refl (a : PartType) : a.Kept a := rfl

theorem PartType.Kept.trans (a b c : PartType) (h : a.Kept b) (h' : b.Kept c) : a.Kept c :=
  Eq.trans h' h

end Kept

omit [Config W] in
/-- **Later than later is later.** -/
theorem Later.trans (s t s' : State W) (h : Later s t) (h' : Later t s') : Later s s' where
  nfts := h.nfts.trans NftInfo.Kept.trans h'.nfts
  resources := h.resources.trans ResourceInfo.Kept.trans h'.resources
  collections := h.collections.trans CollectionInfo.Kept.trans h'.collections
  bases := h.bases.trans BaseInfo.Kept.trans h'.bases
  parts := h.parts.trans PartType.Kept.trans h'.parts
  bases_stay b hb := h'.bases_stay b (h.bases_stay b hb)
  parts_stay k hk := h'.parts_stay k (h.parts_stay k hk)
  themes_stay k hk := h'.themes_stay k (h.themes_stay k hk)
  blockNumber := h.blockNumber.trans h'.blockNumber

/-! ## NFTs -/

/-- A number that was handed out once has been handed out. -/
theorem Outcome.issued_mono (h : Outcome s s' act) (x : NftKey) (hx : x.2 < s.nextNftId x.1) :
    x.2 < s'.nextNftId x.1 :=
  UInt32.not_le.1 fun hle => UInt32.not_le.2 hx (h.issued hle)

/-- A send writes the owner and the pending mark. -/
theorem Sent.kept {o old new : AccountId} {x : NftKey} {newOwner : AccountIdOrCollectionNftTuple}
    {nft nft' : NftInfo} (h : Sent o x newOwner old new nft nft' s s') : nft.Kept nft' := by
  by_cases ha : ApprovalRequired s o newOwner
  · rw [h.unapproved ha]
    exact ⟨rfl, rfl, rfl⟩
  · rw [h.approved ha]
    exact ⟨rfl, rfl, rfl⟩

/-- **What a step does to the NFTs**: it mints under a number not handed out
before, destroys, or writes fields of one that an NFT does not keep. -/
theorem Step.nfts_age (hstep : Step s act s') : Ages NftInfo.Kept
    (fun x => x.2 < s.nextNftId x.1) (fun x => x.2 < s'.nextNftId x.1) s.nfts s'.nfts := by
  have hI := hstep.outcome.issued_mono
  have hsame : s'.nfts = s.nfts → Ages NftInfo.Kept (fun x => x.2 < s.nextNftId x.1)
      (fun x => x.2 < s'.nextNftId x.1) s.nfts s'.nfts := fun hn =>
    .of_eq NftInfo.Kept.refl hI fun x _ => congrFun hn x
  have hborn : ∀ {x : NftKey} {a : AccountId} {nft : NftInfo}, Minted x a nft s s' →
      Ages NftInfo.Kept (fun x => x.2 < s.nextNftId x.1) (fun x => x.2 < s'.nextNftId x.1)
        s.nfts s'.nfts := by
    intro x a nft h
    rw [h.nfts]
    exact .of_insert NftInfo.Kept.refl hI (by simp only [h.next]; exact UInt32.lt_irrefl _)
  have hburned : ∀ {x : NftKey} {q : Option NftKey}, Destroyed x q s s' →
      Ages NftInfo.Kept (fun x => x.2 < s.nextNftId x.1) (fun x => x.2 < s'.nextNftId x.1)
        s.nfts s'.nfts := by
    intro x q h
    refine .of_kept hI fun y nft _ hy => ⟨nft, ?_, .refl nft⟩
    by_cases hb : Below s x y
    · simp [h.nfts_below y hb] at hy
    · exact h.nfts_else y hb ▸ hy
  have hwired : ∀ {x : NftKey} {k : NftKey × BaseId × SlotId} {r : Option ResourceId},
      Wired x k r s s' → Ages NftInfo.Kept (fun x => x.2 < s.nextNftId x.1)
        (fun x => x.2 < s'.nextNftId x.1) s.nfts s'.nfts := by
    intro x k r h
    rw [h.nfts]
    exact .of_mutate NftInfo.Kept.refl hI fun _ => ⟨rfl, rfl, rfl⟩
  cases hstep.outcome with
  | silent _ h => exact hsame h.nfts
  | noted _ h => exact hsame h.nfts
  | mintNft _ _ h => exact hborn h
  | mintNftDirectlyToNft _ _ _ h => exact hborn h
  | send h => exact h.nfts ▸ .of_overwrite NftInfo.Kept.refl hI h.nfts_eq h.kept
  | acceptNft h =>
      exact h.nfts ▸ .of_overwrite NftInfo.Kept.refl hI h.nfts_eq ⟨rfl, rfl, rfl⟩
  | burnNft _ h => exact hburned h
  | rejectNft _ _ h => exact hburned h
  | unequip h => exact hwired h
  | equip h => exact hwired h
  | list _ _ _ h => exact hsame h.nfts
  | unlist _ h => exact hsame h.nfts
  | buy _ _ _ h => exact h.nfts ▸ .of_overwrite NftInfo.Kept.refl hI h.nfts_eq h.kept
  | acceptOffer _ h => exact h.nfts ▸ .of_overwrite NftInfo.Kept.refl hI h.nfts_eq h.kept

/-! ## Resources -/

/-- The resources have aged, as the resources of the state. -/
abbrev ResourcesAge (s s' : State W) : Prop :=
  Ages ResourceInfo.Kept (fun k => k.2 < s.nextResourceId k.1)
    (fun k => k.2 < s'.nextResourceId k.1) s.resources s'.resources

omit [Config W] in
/-- A step that leaves the stock alone has aged it. -/
theorem ResourcesAge.of_stock (h : Same State.stock s s') : ResourcesAge s s' := by
  simp only [Same, State.stock, Prod.mk.injEq] at h
  obtain ⟨hnext, hres, -⟩ := h
  exact .of_eq ResourceInfo.Kept.refl (fun k hk => hnext ▸ hk) fun k _ => congrFun hres k

/-- A resource is added under the next number of its NFT. -/
theorem Added.age {o : AccountId} {x : NftKey} {resource : ResourceTypes} {onMint : Bool}
    (h : Added o x resource onMint s s') : ResourcesAge s s' := by
  obtain ⟨a, -, hres⟩ := h.resources
  unfold ResourcesAge
  rw [hres]
  refine .of_insert ResourceInfo.Kept.refl (fun k hk => ?_) (UInt32.lt_irrefl _)
  rw [h.nextResourceId]
  by_cases hkx : k.1 = x
  · rw [hkx] at hk ⊢
    rw [Function.update_self, UInt32.lt_iff_toNat_lt, toNat_succ_of_room h.room]
    exact Nat.lt_succ_of_lt (UInt32.lt_iff_toNat_lt.1 hk)
  · rw [Function.update_of_ne hkx]
    exact hk

/-- **What a step does to the resources.** Those a mint brings are added one
by one, which is a run of its own. -/
theorem Step.resources_age (hstep : Step s act s') : ResourcesAge s s' := by
  cases hstep.stocked with
  | same _ h => exact .of_stock h
  | added _ h => exact h.age
  | minted _ ht _ h =>
      exact Core.addResources_preserves (P := fun t => ResourcesAge s t)
        (fun _ _ _ hadd hs => hs.trans ResourceInfo.Kept.trans hadd.age) h (.of_stock ht)
  | accepted _ hres hpending h =>
      subst h
      exact .of_overwrite ResourceInfo.Kept.refl (fun _ => id) hres
        ⟨rfl, rfl, fun _ => hpending, id⟩
  | removed _ _ _ h =>
      subst h
      exact .of_remove ResourceInfo.Kept.refl fun _ => id
  | asked _ _ _ h =>
      subst h
      exact .of_mutate ResourceInfo.Kept.refl (fun _ => id) fun _ => ⟨rfl, rfl, id, fun _ => rfl⟩
  | consented _ _ _ h =>
      subst h
      exact .of_remove ResourceInfo.Kept.refl fun _ => id
  | @burned _ x _ h =>
      refine .of_kept (fun k hk => h.nextResourceId ▸ hk) fun k res _ hk => ⟨res, ?_, .refl res⟩
      by_cases hb : Below s x k.1
      · simp [h.below k.1 hb] at hk
      · exact h.elsewhere k.1 hb k.2 ▸ hk

/-! ## Collections -/

/-- **No collection counts more than its maximum.** -/
def Bounded (s : State W) : Prop :=
  ∀ c col m, s.collections c = some col → col.max = some m → col.nftsCount ≤ m

/-- A mint counts up to the identifier it has been given, which the check has
found below the maximum, and a lock sets the maximum to the count. -/
theorem Bounded.step (ho : Orderly s) (hs : Bounded s) (hstep : Step s act s') : Bounded s' := by
  intro d col' m hcol' hm
  rcases hstep.registered.split with ⟨c, -, h⟩ | ⟨-, h⟩ | ⟨x, -, h⟩ | ⟨-, h⟩
  · obtain ⟨col, hcol, hlt, hroom, hcols⟩ := h.collections
    rw [hcols] at hcol'
    rcases StorageMap.insert_eq_some_iff.1 hcol' with ⟨rfl, rfl⟩ | ⟨-, hcol'⟩
    · -- the count has not passed the identifier, and that is below the maximum
      have hle := ho.count d col hcol
      have hmax := UInt32.lt_iff_toNat_lt.1 (hlt m hm)
      rw [UInt32.le_iff_toNat_le]
      change (col.nftsCount + 1).toNat ≤ _
      rw [toNat_succ_of_room hroom]
      omega
    · exact hs d col' m hcol' hm
  · obtain ⟨col, hzero, hcols⟩ := h.collections
    rw [hcols] at hcol'
    rcases StorageMap.insert_eq_some_iff.1 hcol' with ⟨-, rfl⟩ | ⟨-, hcol'⟩
    · rw [hzero]
      exact UInt32.le_iff_toNat_le.2 (Nat.zero_le _)
    · exact hs d col' m hcol' hm
  · obtain ⟨l, -, hcount, -⟩ := h.tallied
    rw [hcount.collections, Option.map_eq_some_iff] at hcol'
    obtain ⟨col, hcol, rfl⟩ := hcol'
    have hle := UInt32.le_iff_toNat_le.1 (hs d col m hcol hm)
    rw [UInt32.le_iff_toNat_le]
    change (saturatingDec^[tally l d] col.nftsCount).toNat ≤ _
    rw [toNat_iterate_saturatingDec]
    omega
  · obtain ⟨col, hcol, hcount, hmax | hmax⟩ := h.collections d col' hcol'
    · rw [hcount]
      exact hs d col m hcol (hmax ▸ hm)
    · rw [hmax, Option.some.injEq] at hm
      rw [hcount, hm]
      exact UInt32.le_refl _

/-- No run passes a maximum. -/
theorem Reachable.bounded (h : Reachable s) : Bounded s := by
  refine h.invariant (fun s h0 => ?_) fun _ _ _ hr hs hstep => hs.step (Reachable.orderly hr) hstep
  obtain ⟨w, -, -, rfl⟩ := h0
  exact fun _ _ _ hcol => by simp [genesis] at hcol

/-- **What a step does to the collections.** That a lock only lowers the
maximum is that the count has not passed it. -/
theorem Step.collections_age (hs : Bounded s) (hstep : Step s act s') : Ages CollectionInfo.Kept
    (fun c => c < s.collectionIndex) (fun c => c < s'.collectionIndex)
    s.collections s'.collections := by
  have hI : s'.collectionIndex = s.collectionIndex →
      ∀ c, c < s.collectionIndex → c < s'.collectionIndex := fun h _ hc => h ▸ hc
  cases hstep.registered with
  | same _ h =>
      exact .of_eq CollectionInfo.Kept.refl (hI h.collectionIndex)
        fun c _ => congrFun h.collections c
  | minted _ h =>
      obtain ⟨col, hcol, -, -, hcols⟩ := h.collections
      rw [hcols]
      exact .of_overwrite CollectionInfo.Kept.refl (hI h.collectionIndex) hcol
        (.of_max rfl rfl rfl)
  | created hroom hindex hcols =>
      rw [hcols]
      refine .of_insert CollectionInfo.Kept.refl (fun c hc => ?_) (UInt32.lt_irrefl _)
      rw [hindex, UInt32.lt_iff_toNat_lt, toNat_succ hroom]
      exact Nat.lt_succ_of_lt (UInt32.lt_iff_toNat_lt.1 hc)
  | destroyed hindex hcols =>
      exact hcols ▸ .of_remove CollectionInfo.Kept.refl (hI hindex)
  | issuerChanged hindex hcols =>
      exact hcols ▸ .of_mutate CollectionInfo.Kept.refl (hI hindex) fun _ => .of_max rfl rfl rfl
  | locked hindex hcol hcols =>
      rw [hcols]
      exact .of_overwrite CollectionInfo.Kept.refl (hI hindex) hcol
        ⟨rfl, rfl, fun m hm => ⟨_, rfl, hs _ _ m hcol hm⟩⟩
  | burned _ h =>
      obtain ⟨l, -, hcount, -⟩ := h.tallied
      refine .of_kept (hI h.collectionIndex) fun c col' _ hcol' => ?_
      rw [hcount.collections, Option.map_eq_some_iff] at hcol'
      obtain ⟨col, hcol, rfl⟩ := hcol'
      exact ⟨col, hcol, .of_max rfl rfl rfl⟩

/-! ## Bases -/

/-- **What a step leaves of the catalog.** -/
structure CatalogAges (s s' : State W) : Prop where
  bases : Ages BaseInfo.Kept (fun b => b < s.nextBaseId) (fun b => b < s'.nextBaseId)
    s.bases s'.bases
  parts : Ages PartType.Kept (fun k => k.1 < s.nextBaseId) (fun k => k.1 < s'.nextBaseId)
    s.parts s'.parts
  bases_stay : ∀ b, (s.bases b).isSome = true → (s'.bases b).isSome = true
  parts_stay : ∀ k, (s.parts k).isSome = true → (s'.parts k).isSome = true

/-- A base is created under a number of its own and then changes its issuer
and the lists of its slots. -/
theorem Step.catalog_ages (hstep : Step s act s') : CatalogAges s s' := by
  cases hstep.catalogued with
  | same _ h =>
      simp only [Same, State.catalog, Prod.mk.injEq] at h
      obtain ⟨hbases, hparts, hnext⟩ := h
      exact {
        bases := .of_eq BaseInfo.Kept.refl (fun b hb => hnext ▸ hb) fun b _ => congrFun hbases b
        parts := .of_eq PartType.Kept.refl (fun k hk => hnext ▸ hk) fun k _ => congrFun hparts k
        bases_stay := fun b hb => hbases ▸ hb
        parts_stay := fun k hk => hparts ▸ hk }
  | @created o bt sy ps h =>
      obtain ⟨base, -, hbases⟩ := h.bases
      have hnext : ∀ b, b < s.nextBaseId → b < s'.nextBaseId := fun b hb => by
        rw [h.nextBaseId, UInt32.lt_iff_toNat_lt, toNat_succ_of_room h.room]
        exact Nat.lt_succ_of_lt (UInt32.lt_iff_toNat_lt.1 hb)
      exact {
        bases := hbases ▸ .of_insert BaseInfo.Kept.refl hnext (UInt32.lt_irrefl _)
        parts := .of_eq PartType.Kept.refl (fun k => hnext k.1) fun k hk => by
          rw [h.parts, Equip.putParts_of_ne (UInt32.ne_of_lt hk)]
        bases_stay := fun b hb => by
          rw [hbases, StorageMap.isSome_insert]
          exact .inl hb
        parts_stay := fun k hk => by
          rw [h.parts, Equip.putParts_eq, StorageMap.isSome_insertAll]
          exact .inl hk }
  | equippable _ hpart h =>
      subst h
      exact {
        bases := .of_eq BaseInfo.Kept.refl (fun _ => id) fun _ _ => rfl
        parts := .of_overwrite PartType.Kept.refl (fun _ => id) hpart rfl
        bases_stay := fun _ => id
        parts_stay := fun k hk => StorageMap.isSome_insert.2 (.inl hk) }
  | issuerChanged h =>
      subst h
      exact {
        bases := .of_mutate BaseInfo.Kept.refl (fun _ => id) fun _ => ⟨rfl, rfl, rfl⟩
        parts := .of_eq PartType.Kept.refl (fun _ => id) fun _ _ => rfl
        bases_stay := fun b hb => by
          rw [Option.isSome_iff_ne_none] at hb ⊢
          exact mt StorageMap.mutate_eq_none_iff.1 hb
        parts_stay := fun _ => id }

/-- A theme property is written over, never taken out. -/
theorem Step.themes_stay (hstep : Step s act s') (k : BaseId × BoundedString × BoundedString)
    (hk : (s.themeOf k).isSome = true) : (s'.themeOf k).isSome = true := by
  rw [hstep.jots.themes]
  unfold Indexer.themesAdded
  split
  · exact StorageMap.isSome_insertAll.2 (.inl hk)
  · exact hk

/-! ## Every run -/

/-- Ledger by ledger, one step makes a later state. -/
theorem Step.later (hs : Bounded s) (hstep : Step s act s') : Later s s' where
  nfts := hstep.nfts_age
  resources := hstep.resources_age
  collections := hstep.collections_age hs
  bases := hstep.catalog_ages.bases
  parts := hstep.catalog_ages.parts
  bases_stay := hstep.catalog_ages.bases_stay
  parts_stay := hstep.catalog_ages.parts_stay
  themes_stay := hstep.themes_stay
  blockNumber := hstep.outcome.blockNumber_le

/-- **The end of a run is later than every state of it**, however much has
happened in between. -/
theorem history_later (hr : IsRun h s) : ∀ e ∈ h, Later e.1 s :=
  hr.to_end Later.trans fun _ _ _ hreach hstep => hstep.later (Reachable.bounded hreach)

namespace Mock

/-- **Two NFTs are sold**, and are what they were before the three calls
that sold them. -/
theorem later_traded : Later (replay (traded.drop 3)) (replay traded) :=
  history_later (isRun_replay (by decide +kernel))
    (_, .signed bob (.makeOffer (0, 1) 60 none)) (.tail _ (.tail _ (.head _)))

end Mock

end Rmrk
