import Rmrk.Properties.Indexer
/-!
# The order of extrinsics

Each extrinsic touches few entries of the ledgers an indexer keeps. Those
it does not touch it leaves as they are, and what it makes of those it
does depends on nothing else. So two runs whose extrinsics come in another
order, and at each entry in the same, end with the same ledgers.
-/

namespace Rmrk

open Effect

variable {W : Type} [Config W] {s s' : State W} {act act' : Act W}
variable {h h' : List (State W × Act W)}

/-! ## Entries -/

/-- An entry of a ledger. -/
inductive Cell where
  | owner (x : NftKey)
  | nextNftId (c : CollectionId)
  | collectionIndex
  | issuer (c : CollectionId)
  | lock (x : NftKey)
  | listing (x : NftKey)
  | offer (x : NftKey) (a : AccountId)
  | property (k : CollectionId × Option NftId × BoundedString)
  | priority (x : NftKey) (r : ResourceId)
  | theme (b : BaseId) (name k : BoundedString)
  | nextBaseId
  | base (b : BaseId)
  | part (b : BaseId) (i : PartId)
  | slot (k : NftKey × BaseId × SlotId)

/-- What an entry holds. -/
def Cell.Val : Cell → Type
  | .owner _ => Option AccountId
  | .nextNftId _ => NftId
  | .collectionIndex => CollectionId
  | .issuer _ => Option AccountId
  | .lock _ => Bool
  | .listing _ => Option ListInfo
  | .offer _ _ => Option Offer
  | .property _ => Option BoundedString
  | .priority _ _ => Option UInt32
  | .theme _ _ _ => Option BoundedString
  | .nextBaseId => BaseId
  | .base _ => Option BaseInfo
  | .part _ _ => Option PartType
  | .slot _ => Option ResourceId

/-- What stands there. -/
def Indexer.look : (k : Cell) → Indexer → k.Val
  | .owner x, v => v.owner x
  | .nextNftId c, v => v.nextNftId c
  | .collectionIndex, v => v.collectionIndex
  | .issuer c, v => v.issuer c
  | .lock x, v => v.lock x
  | .listing x, v => v.listedNfts x
  | .offer x a, v => v.offers (x, a)
  | .property k, v => v.properties k
  | .priority x r, v => v.priorities (x, r)
  | .theme b name k, v => v.themes (b, name, k)
  | .nextBaseId, v => v.nextBaseId
  | .base b, v => v.bases b
  | .part b i, v => v.parts (b, i)
  | .slot k, v => v.equippings k

/-- **The entries an extrinsic touches.** A mint touches the owners of its
collection, whichever identifier is next, and a new base all bases. -/
def Call.touches (o : AccountId) : Call W → Cell → Prop
  | .mintNft _ c .., k | .mintNftDirectlyToNft _ c .., k =>
      k = .nextNftId c ∨ ∃ n, k = .owner (c, n)
  | .createCollection .., k => k = .collectionIndex ∨ ∃ c, k = .issuer c
  | .destroyCollection c, k | .changeCollectionIssuer c _, k => k = .issuer c
  | .send x _, k | .acceptNft x _, k | .burnNft x _, k => k = .owner x
  | .setProperty c n key _, k => k = .property (c, n, key)
  | .setPriority x _, k => ∃ r, k = .priority x r
  | .changeBaseIssuer b _, k => k = .base b
  | .equip _ equipper _ b sl, k => k = .slot (equipper, b, sl)
  | .equippable b sl _, k => k = .part b sl
  | .themeAdd b theme, k => ∃ p ∈ theme.properties, k = .theme b theme.name p.key
  | .createBase .., k => k = .nextBaseId ∨ (∃ b, k = .base b) ∨ ∃ b i, k = .part b i
  | .buy x _, k => k = .owner x ∨ k = .lock x ∨ k = .listing x
  | .list x .., k | .unlist x, k => k = .lock x ∨ k = .listing x
  | .makeOffer x .., k | .withdrawOffer x, k => k = .offer x o
  | .acceptOffer x offerer, k => k = .owner x ∨ k = .lock x ∨ k = .offer x offerer
  | _, _ => False

/-- Time and the other pallets touch nothing an indexer keeps. -/
def Act.touches : Act W → Cell → Prop
  | .signed o call, k => call.touches o k
  | .between .., _ => False

namespace Indexer

variable {v w : Indexer}

/-- The entries are all there is. -/
theorem ext_look (h : ∀ k, look k v = look k w) : v = w := by
  apply Indexer.ext
  · exact funext fun x => h (.owner x)
  · exact funext fun c => h (.nextNftId c)
  · exact h .collectionIndex
  · exact funext fun c => h (.issuer c)
  · exact funext fun x => h (.lock x)
  · exact funext fun x => h (.listing x)
  · exact funext fun q => h (.offer q.1 q.2)
  · exact funext fun q => h (.property q)
  · exact funext fun q => h (.priority q.1 q.2)
  · exact funext fun q => h (.theme q.1 q.2.1 q.2.2)
  · exact h .nextBaseId
  · exact funext fun b => h (.base b)
  · exact funext fun q => h (.part q.1 q.2)
  · exact funext fun q => h (.slot q)

/-! ### Ledger by ledger -/

section Ledgers

variable {x : NftKey} {c : CollectionId} {n : Option NftId} {b : BaseId} {i : PartId} {sl : SlotId}
variable {a : AccountId} {r : ResourceId} {name key : BoundedString}

/-- An owner no mint, send or sale touches stays. -/
theorem owners_untouched (h : ¬ act.touches (.owner x)) :
    v.owners act x = v.owner x := by
  unfold owners
  split
  · exact StorageMap.insert_of_ne fun hx => h (Or.inr ⟨_, congrArg Cell.owner hx⟩)
  · exact StorageMap.insert_of_ne fun hx => h (Or.inr ⟨_, congrArg Cell.owner hx⟩)
  · exact StorageMap.insert_of_ne fun hx => h (congrArg Cell.owner hx)
  · exact StorageMap.insert_of_ne fun hx => h (congrArg Cell.owner hx)
  · exact StorageMap.insert_of_ne fun hx => h (Or.inl (congrArg Cell.owner hx))
  · exact StorageMap.insert_of_ne fun hx => h (Or.inl (congrArg Cell.owner hx))
  · exact StorageMap.remove_of_ne fun hx => h (congrArg Cell.owner hx)
  · rfl

/-- A mint writes the owner under the next identifier, the other calls that
of the NFT they name. -/
theorem owners_congr (h : ∀ k, act.touches k → look k v = look k w)
    (hself : v.owner x = w.owner x) :
    v.owners act x = w.owners act x := by
  unfold owners
  split <;> try exact StorageMap.update_congr (fun _ => rfl) hself
  -- a mint writes under the next identifier
  · have hnext : v.nextNftId _ = w.nextNftId _ := h (.nextNftId _) (Or.inl rfl)
    rw [hnext]
    exact StorageMap.update_congr (fun _ => rfl) hself
  · have hnext : v.nextNftId _ = w.nextNftId _ := h (.nextNftId _) (Or.inl rfl)
    rw [hnext]
    exact StorageMap.update_congr (fun _ => rfl) hself
  · exact hself

theorem nftIds_untouched (h : ¬ act.touches (.nextNftId c)) :
    v.nftIds act c = v.nextNftId c := by
  unfold nftIds
  split
  · exact Function.update_of_ne (fun hc => h (Or.inl (congrArg Cell.nextNftId hc))) _ _
  · exact Function.update_of_ne (fun hc => h (Or.inl (congrArg Cell.nextNftId hc))) _ _
  · rfl

/-- A counter goes up from what it was. -/
theorem nftIds_congr (hself : v.nextNftId c = w.nextNftId c) :
    v.nftIds act c = w.nftIds act c := by
  unfold nftIds
  split
  · exact StorageMap.update_congr (fun hc => by rw [← hc, hself]) hself
  · exact StorageMap.update_congr (fun hc => by rw [← hc, hself]) hself
  · exact hself

theorem collectionCount_untouched (h : ¬ act.touches .collectionIndex) :
    v.collectionCount act = v.collectionIndex := by
  unfold collectionCount
  split
  · exact absurd (Or.inl rfl) h
  · rfl

theorem collectionCount_congr (hself : v.collectionIndex = w.collectionIndex) :
    v.collectionCount act = w.collectionCount act := by
  unfold collectionCount
  split
  · rw [hself]
  · exact hself

/-- A hand over touches the one issuer, a new collection may touch any. -/
theorem issuers_untouched (h : ¬ act.touches (.issuer c)) :
    v.issuers act c = v.issuer c := by
  unfold issuers
  split
  · exact absurd (Or.inr ⟨c, rfl⟩) h
  · exact StorageMap.remove_of_ne fun hc => h (congrArg Cell.issuer hc)
  · exact Function.update_of_ne (fun hc => h (congrArg Cell.issuer hc)) _ _
  · rfl

/-- A new collection's issuer goes under the next number. -/
theorem issuers_congr (h : ∀ k, act.touches k → look k v = look k w)
    (hself : v.issuer c = w.issuer c) :
    v.issuers act c = w.issuers act c := by
  unfold issuers
  split
  · have hindex : v.collectionIndex = w.collectionIndex := h .collectionIndex (Or.inl rfl)
    rw [hindex]
    exact StorageMap.update_congr (fun _ => rfl) hself
  · exact StorageMap.update_congr (fun _ => rfl) hself
  · exact StorageMap.update_congr (fun hc => by rw [← hc, hself]) hself
  · exact hself

theorem locks_untouched (h : ¬ act.touches (.lock x)) :
    v.locks act x = v.lock x := by
  unfold locks
  split
  · exact Function.update_of_ne (fun hx => h (Or.inl (congrArg Cell.lock hx))) _ _
  · exact Function.update_of_ne (fun hx => h (Or.inl (congrArg Cell.lock hx))) _ _
  · exact Function.update_of_ne (fun hx => h (Or.inr (Or.inl (congrArg Cell.lock hx)))) _ _
  · exact Function.update_of_ne (fun hx => h (Or.inr (Or.inl (congrArg Cell.lock hx)))) _ _
  · rfl

/-- A lock is set whatever it was. -/
theorem locks_congr (hself : v.lock x = w.lock x) :
    v.locks act x = w.locks act x := by
  unfold locks
  split <;> first | exact StorageMap.update_congr (fun _ => rfl) hself | exact hself

theorem listings_untouched (h : ¬ act.touches (.listing x)) :
    v.listings act x = v.listedNfts x := by
  unfold listings
  split
  · exact StorageMap.insert_of_ne fun hx => h (Or.inr (congrArg Cell.listing hx))
  · exact StorageMap.remove_of_ne fun hx => h (Or.inr (congrArg Cell.listing hx))
  · exact StorageMap.remove_of_ne fun hx => h (Or.inr (Or.inr (congrArg Cell.listing hx)))
  · rfl

/-- So is a listing. -/
theorem listings_congr (hself : v.listedNfts x = w.listedNfts x) :
    v.listings act x = w.listings act x := by
  unfold listings
  split <;> first | exact StorageMap.update_congr (fun _ => rfl) hself | exact hself

theorem openOffers_untouched (h : ¬ act.touches (.offer x a)) :
    v.openOffers act (x, a) = v.offers (x, a) := by
  have hne : ∀ {y b}, Cell.offer x a ≠ .offer y b → (x, a) ≠ (y, b) := fun hne hk =>
    hne (congrArg (fun q => Cell.offer q.1 q.2) hk)
  unfold openOffers
  split
  · exact StorageMap.insert_of_ne (hne h)
  · exact StorageMap.remove_of_ne (hne h)
  · exact StorageMap.remove_of_ne (hne fun hk => h (Or.inr (Or.inr hk)))
  · rfl

/-- An offer is its maker's entry, and the owner's who accepts it. -/
theorem openOffers_congr (hself : v.offers (x, a) = w.offers (x, a)) :
    v.openOffers act (x, a) = w.openOffers act (x, a) := by
  unfold openOffers
  split <;> first | exact StorageMap.update_congr (fun _ => rfl) hself | exact hself

theorem propertiesSet_untouched (h : ¬ act.touches (.property (c, n, key))) :
    v.propertiesSet act (c, n, key) = v.properties (c, n, key) := by
  unfold propertiesSet
  split
  · exact StorageMap.insert_of_ne fun hq => h (congrArg Cell.property hq)
  · rfl

/-- And a property. -/
theorem propertiesSet_congr (hself : v.properties (c, n, key) = w.properties (c, n, key)) :
    v.propertiesSet act (c, n, key) = w.propertiesSet act (c, n, key) := by
  unfold propertiesSet
  split <;> first | exact StorageMap.update_congr (fun _ => rfl) hself | exact hself

theorem ranks_untouched (h : ¬ act.touches (.priority x r)) :
    v.ranks act (x, r) = v.priorities (x, r) := by
  unfold ranks
  split
  · exact Core.insertAll_ranked_of_ne fun hx => h ⟨r, hx ▸ rfl⟩
  · rfl

/-- All priorities of an NFT are set together. -/
theorem ranks_congr (hself : v.priorities (x, r) = w.priorities (x, r)) :
    v.ranks act (x, r) = w.ranks act (x, r) := by
  unfold ranks
  split
  · refine StorageMap.insertAll_congr ?_
    simp only [StorageMap.removePrefix_apply, hself]
  · exact hself

theorem themesAdded_untouched (h : ¬ act.touches (.theme b name key)) :
    v.themesAdded act (b, name, key) = v.themes (b, name, key) := by
  unfold themesAdded
  split
  · refine StorageMap.insertAll_of_ne fun e he heq => h ?_
    obtain ⟨p, hp, hkey⟩ := Equip.key_of_mem_entries he
    exact ⟨p, hp, congrArg (fun q => Cell.theme q.1 q.2.1 q.2.2) (heq.symm.trans hkey)⟩
  · rfl

/-- And the properties of a theme, which touch their keys only. -/
theorem themesAdded_congr (hself : v.themes (b, name, key) = w.themes (b, name, key)) :
    v.themesAdded act (b, name, key) = w.themesAdded act (b, name, key) := by
  unfold themesAdded
  split
  · exact StorageMap.insertAll_congr hself
  · exact hself

theorem baseCount_untouched (h : ¬ act.touches .nextBaseId) :
    v.baseCount act = v.nextBaseId := by
  unfold baseCount
  split
  · exact absurd (Or.inl rfl) h
  · rfl

theorem baseCount_congr (hself : v.nextBaseId = w.nextBaseId) :
    v.baseCount act = w.baseCount act := by
  unfold baseCount
  split
  · rw [hself]
  · exact hself

theorem baseInfos_untouched (h : ¬ act.touches (.base b)) :
    v.baseInfos act b = v.bases b := by
  unfold baseInfos
  split
  · exact absurd (Or.inr (Or.inl ⟨b, rfl⟩)) h
  · exact StorageMap.mutate_of_ne fun hb => h (congrArg Cell.base hb)
  · rfl

/-- A new base goes under the next number, and so do its parts. -/
theorem baseInfos_congr (h : ∀ k, act.touches k → look k v = look k w)
    (hself : v.bases b = w.bases b) :
    v.baseInfos act b = w.baseInfos act b := by
  unfold baseInfos
  split
  · have hnext : v.nextBaseId = w.nextBaseId := h .nextBaseId (Or.inl rfl)
    rw [hnext]
    exact StorageMap.update_congr (fun _ => rfl) hself
  · exact StorageMap.update_congr (fun hb => by rw [← hb, hself]) hself
  · exact hself

theorem baseParts_untouched (h : ¬ act.touches (.part b i)) :
    v.baseParts act (b, i) = v.parts (b, i) := by
  unfold baseParts
  split
  · exact absurd (Or.inr (Or.inr ⟨b, i, rfl⟩)) h
  · refine StorageMap.mutate_of_ne fun hq => h ?_
    exact congrArg (fun q : BaseId × PartId => Cell.part q.1 q.2) hq
  · rfl

/-- A new base's parts are put in as a list, under its number. -/
theorem baseParts_congr (h : ∀ k, act.touches k → look k v = look k w)
    (hself : v.parts (b, i) = w.parts (b, i)) :
    v.baseParts act (b, i) = w.baseParts act (b, i) := by
  unfold baseParts
  split
  · have hnext : v.nextBaseId = w.nextBaseId := h .nextBaseId (Or.inl rfl)
    rw [hnext, Equip.putParts_eq, Equip.putParts_eq]
    exact StorageMap.insertAll_congr hself
  · exact StorageMap.update_congr (fun hq => by rw [← hq, hself]) hself
  · exact hself

theorem slots_untouched (h : ¬ act.touches (.slot (x, b, sl))) :
    v.slots act (x, b, sl) = v.equippings (x, b, sl) := by
  unfold slots
  split
  · exact Function.update_of_ne (fun hq => h (congrArg Cell.slot hq)) _ _
  · rfl

/-- A slot is toggled from what it was. -/
theorem slots_congr (hself : v.equippings (x, b, sl) = w.equippings (x, b, sl)) :
    v.slots act (x, b, sl) = w.slots act (x, b, sl) := by
  unfold slots
  split
  · exact StorageMap.update_congr (fun hq => by rw [← hq, hself]) hself
  · exact hself

end Ledgers

/-- **What an extrinsic does not touch** stays. -/
theorem look_take {k : Cell} (h : ¬ act.touches k) : look k (v.take act) = look k v := by
  cases k with
  | owner x => exact owners_untouched h
  | nextNftId c => exact nftIds_untouched h
  | collectionIndex => exact collectionCount_untouched h
  | issuer c => exact issuers_untouched h
  | lock x => exact locks_untouched h
  | listing x => exact listings_untouched h
  | offer x a => exact openOffers_untouched h
  | property q => exact propertiesSet_untouched h
  | priority x r => exact ranks_untouched h
  | theme b name key => exact themesAdded_untouched h
  | nextBaseId => exact baseCount_untouched h
  | base b => exact baseInfos_untouched h
  | part b i => exact baseParts_untouched h
  | slot q => exact slots_untouched h

/-- **What it makes of an entry** it makes of those it touches. -/
theorem look_take_congr (h : ∀ k, act.touches k → look k v = look k w) {k : Cell}
    (hk : act.touches k) : look k (v.take act) = look k (w.take act) := by
  have hself : look k v = look k w := h k hk
  cases k with
  | owner x => exact owners_congr h hself
  | nextNftId c => exact nftIds_congr hself
  | collectionIndex => exact collectionCount_congr hself
  | issuer c => exact issuers_congr h hself
  | lock x => exact locks_congr hself
  | listing x => exact listings_congr hself
  | offer x a => exact openOffers_congr hself
  | property q => exact propertiesSet_congr hself
  | priority x r => exact ranks_congr hself
  | theme b name key => exact themesAdded_congr hself
  | nextBaseId => exact baseCount_congr hself
  | base b => exact baseInfos_congr h hself
  | part b i => exact baseParts_congr h hself
  | slot q => exact slots_congr hself

/-- **The footprint of the extrinsics.** -/
theorem footprint : Footprint look (take (W := W)) Act.touches where
  ext _ _ := ext_look
  frame _ _ _ := look_take
  reads _ _ _ h _ := look_take_congr h

end Indexer

/-! ## Every run -/

/-- **An extrinsic writes what it touches**, and nothing else an indexer
keeps. -/
theorem Step.look_eq (hr : Reachable s) (hstep : Step s act s') {k : Cell}
    (hk : ¬ act.touches k) : s'.indexer.look k = s.indexer.look k := by
  rw [hstep.indexer hr]
  exact Indexer.look_take hk

/-- The last step of the run that touched an entry took `act` in `s₁`. -/
def LastTouch (h : List (State W × Act W)) (k : Cell) (s₁ : State W) (act : Act W) : Prop :=
  ∃ newer older, h = newer ++ (s₁, act) :: older ∧ ∀ e ∈ newer, ¬ e.2.touches k

/-- **What is in an entry was put there** by the last step that touched it,
if it is not as it was at genesis. -/
theorem last_touch (hr : IsRun h s) {k : Cell}
    (hk : s.indexer.look k ≠ Indexer.blank.look k) :
    ∃ s₁ act s₂, LastTouch h k s₁ act ∧ act.touches k ∧ Reachable s₁ ∧ Step s₁ act s₂ ∧
        s.indexer.look k = s₂.indexer.look k := by
  have hblank : ∀ s : State W, Genesis s → s.indexer = .blank := fun _ => indexer_genesis
  obtain ⟨newer, s₁, act, older, s₂, rfl, hnewer, hact, hr₁, hstep, hsame⟩ :=
    (Indexer.footprint.last_touch hblank (fun _ _ _ hr hstep => hstep.indexer hr) hr k).resolve_left
      hk
  exact ⟨s₁, act, s₂, ⟨newer, older, rfl, hnewer⟩, hact, hr₁.reachable, hstep, hsame⟩

/-- **The order counts at each entry, and nowhere else.** Two runs that
bring the same extrinsics to each entry, in the same order, end with the
same ledgers, whatever order they come in elsewhere. -/
theorem indexer_eq_of_order (hr : IsRun h s) (hr' : IsRun h' s')
    (horder : ∀ k, touching Act.touches k (labels h) = touching Act.touches k (labels h')) :
    s.indexer = s'.indexer := by
  rw [indexer_run hr, indexer_run hr']
  exact Indexer.footprint.foldr_eq horder

namespace Mock

/-- The two trades the other way round. -/
def tradedFirst : List Extrinsic :=
  [(bob, .buy (0, 0) none), (alice, .acceptOffer (0, 1) bob), (alice, .list (0, 0) 100 none),
    (bob, .makeOffer (0, 1) 60 none), (alice, mintTo alice), (alice, mintTo alice),
    (alice, newCollection)]

/-- **The two trades meet at no entry**, and end alike. -/
theorem indexer_tradedFirst : (replay traded).indexer = (replay tradedFirst).indexer := by
  refine indexer_eq_of_order (isRun_replay (by decide +kernel)) (isRun_replay (by decide +kernel))
    fun k => ?_
  have hsold : Independent Act.touches
      (.signed alice (.acceptOffer (0, 1) bob) : Act Storage) (.signed bob (.buy (0, 0) none)) := by
    rintro k (rfl | rfl | rfl) <;> simp [Act.touches, Call.touches]
  have hmade : Independent Act.touches
      (.signed bob (.makeOffer (0, 1) 60 none) : Act Storage)
      (.signed alice (.list (0, 0) 100 none)) := by
    rintro k rfl
    simp [Act.touches, Call.touches]
  refine (touching_swap hsold k).trans ?_
  exact touching_cons_congr (touching_cons_congr (touching_swap hmade k))

end Mock

end Rmrk
