import Mathlib.Data.List.Count
import Mathlib.Logic.Function.Iterate
import Rmrk.Helpers.Burn
/-!
# How often `nft_burn` counts down

`nft_burn` calls itself once for each entry of the index it comes to, and
each call takes one off the count of a collection, whether or not there
was an NFT to burn. Where what the index reaches is a tree it calls itself
once on each NFT of it; the entry of the NFT it is called on does not
count, where it is under the parent its record names, as it is taken out
first.
-/

namespace Rmrk

open Effect Relation Rmrk.Core

variable {W : Type} {s s' s₁ t : State W} {x y : NftKey} {l l₁ l₂ : List NftKey} {u : Unit}
variable {c : CollectionId}

/-! ## Counting down -/

/-- A collection, its count taken down `n` times. -/
def CollectionInfo.less (n : ℕ) (col : CollectionInfo) : CollectionInfo :=
  { col with nftsCount := saturatingDec^[n] col.nftsCount }

/-- How many of the NFTs of a list are of a collection. -/
def tally (l : List NftKey) (c : CollectionId) : ℕ := l.countP fun y => decide (y.1 = c)

/-- **The counts have been taken down once for each NFT of `l`**, and no
other has been burned. -/
structure Counted (l : List NftKey) (s s' : State W) : Prop where
  collections : ∀ c, s'.collections c = (s.collections c).map (CollectionInfo.less (tally l c))
  nfts : ∀ y, y ∉ l → s'.nfts y = s.nfts y

/-- No count runs out on the NFTs of `l`. -/
def Covers (s : State W) (l : List NftKey) : Prop :=
  ∀ c col, s.collections c = some col → tally l c ≤ col.nftsCount.toNat

theorem toNat_saturatingDec {n : UInt32} : (saturatingDec n).toNat = n.toNat - 1 := by
  unfold saturatingDec
  split
  · next h => simp [h]
  · next h =>
      have hpos : 1 ≤ n := by
        rw [UInt32.le_iff_toNat_le]
        have : n.toNat ≠ 0 := fun h0 => h (UInt32.toNat_inj.1 h0)
        have hone : (1 : UInt32).toNat = 1 := rfl
        omega
      rw [UInt32.toNat_sub_of_le _ _ hpos]
      rfl

theorem toNat_iterate_saturatingDec {n : ℕ} {v : UInt32} :
    (saturatingDec^[n] v).toNat = v.toNat - n := by
  induction n with
  | zero => rfl
  | succ n ih =>
      rw [Function.iterate_succ_apply', toNat_saturatingDec, ih]
      omega

theorem less_less {m n : ℕ} {col : CollectionInfo} : (col.less m).less n = col.less (m + n) := by
  simp only [CollectionInfo.less, Nat.add_comm m n, Function.iterate_add_apply]

theorem tally_append : tally (l₁ ++ l₂) c = tally l₁ c + tally l₂ c := List.countP_append

theorem Counted.nil (h : s' = s) : Counted [] s s' := by
  subst h
  have hid : CollectionInfo.less 0 = id := rfl
  exact ⟨fun c => by simp [tally, hid], fun _ _ => rfl⟩

/-- Counting down for one list, and then for another. -/
theorem Counted.append (h₁ : Counted l₁ s t) (h₂ : Counted l₂ t s') :
    Counted (l₁ ++ l₂) s s' where
  collections c := by
    rw [h₂.collections, h₁.collections, Option.map_map, tally_append]
    exact congrArg (Option.map · (s.collections c)) (funext fun col => less_less)
  nfts y hy := by
    rw [List.mem_append, not_or] at hy
    rw [h₂.nfts y hy.2, h₁.nfts y hy.1]

theorem Covers.left (h : Covers s (l₁ ++ l₂)) : Covers s l₁ := by
  intro c col hcol
  have := h c col hcol
  rw [tally_append] at this
  omega

/-- What the first list leaves of the counts is enough for the second. -/
theorem Covers.right (h : Covers s (l₁ ++ l₂)) (h₁ : Counted l₁ s t) : Covers t l₂ :=
  fun c col hcol => by
    rw [h₁.collections, Option.map_eq_some_iff] at hcol
    obtain ⟨col₀, hcol₀, rfl⟩ := hcol
    have := h c col₀ hcol₀
    rw [tally_append] at this
    simp only [CollectionInfo.less, toNat_iterate_saturatingDec]
    omega

/-! ## A burn that does not saturate -/

/-- A decrement that fails where `saturating_dec` stays at zero. -/
def checkedDec (n : UInt32) : Option UInt32 := if n = 0 then none else some (n - 1)

variable [Config W] {k : ℕ}

/-- `nft_burn`, with a decrement of its own. -/
def burnWith (dec : UInt32 → Option UInt32) : ℕ → NftKey → M W Unit
  | 0, _ => throw (Error.tooManyRecursions : Abort)
  | maxRecursions + 1, x => do
      unlinkRecorded x
      update fun s => { s with
        nfts := s.nfts.remove x
        resources := s.resources.removePrefix x }
      let s ← get
      drainChildren x (burnWith dec maxRecursions) (Config.iterKeys W (s.children x))
      let s ← get
      let collection ← okOr (s.collections x.1) Error.collectionUnknown
      let nftsCount ← okOr (dec collection.nftsCount) DispatchError.overflow
      update fun s => { s with
        collections := s.collections.insert x.1 { collection with nftsCount } }

/-- `nft_burn` is the one whose decrement saturates. -/
theorem nftBurn_eq :
    (nftBurn : ℕ → NftKey → M W Unit) = burnWith fun n => some (saturatingDec n) := by
  funext k
  induction k with
  | zero => rfl
  | succ k ih =>
      funext x
      simp only [nftBurn, burnWith, ih, okOr, pure_bind]

/-! ## The loop and the recursion -/

omit [Config W] in
/-- **The index a burn of `x` goes down**: the entry of `x` that its record
names is out of it. -/
def Drains (s : State W) (x a b : NftKey) : Prop :=
  Lists s a b ∧ ¬ (b = x ∧ s.recorded x = some a)

omit [Config W] in
theorem Drains.lists {a b : NftKey} (h : Drains s x a b) : Lists s a b := h.1

/-- **What a burn that starts at `x` counts down**: the NFTs of `l`, all
reached from `x`, each once where that is a tree; and `m'` does the same
where no count runs out. -/
structure Tallied (m' : M W Unit) (x : NftKey) (l : List NftKey) (s s' : State W) : Prop where
  reached : ∀ z ∈ l, ReflTransGen (Drains s x) x z
  counted : Counted l s s'
  nodup : TreeAt (Drains s x) x → l.Nodup
  checked : Covers s l → m' s = .ok () s'

omit [Config W] in
theorem Tallied.below {m' : M W Unit} (h : Tallied m' x l s s') : ∀ z ∈ l, Below s x z :=
  fun z hz => ReflTransGen.mono (fun _ _ => Drains.lists) _ _ (h.reached z hz)

omit [Config W] in
theorem Tallied.nodup_of_treeAt {m' : M W Unit} (h : Tallied m' x l s s')
    (htree : TreeAt (Lists s) x) : l.Nodup :=
  h.nodup (htree.anti fun _ _ => Drains.lists)

omit [Config W] in
/-- A pass of the loop: `y` is burned if it is there. -/
theorem drainChild_tallied {body body' : NftKey → M W Unit}
    (hbody : ∀ y t t' u, body y t = .ok u t' →
      (∀ a, t'.children a ⊆ t.children a) ∧ ∃ l, Tallied (body' y) y l t t')
    (h : drainChild x body y s = .ok u s') :
    (∀ a, s'.children a ⊆ s.children a) ∧ y ∉ s'.children x ∧
      ∃ l, (∀ z ∈ l, y ∈ s.children x ∧ Below s y z) ∧ Counted l s s' ∧
        (TreeAt (Lists s) x → l.Nodup) ∧ (Covers s l → drainChild x body' y s = .ok () s') := by
  simp only [drainChild, get_bind_ok] at h
  split at h
  · next hmem =>
      simp only [removeChild, update_bind_ok] at h
      obtain ⟨hsub, l, hl⟩ := hbody _ _ _ _ h
      have hchildren : ∀ a,
          Function.update s.children x ((s.children x).erase y) a ⊆ s.children a := fun a => by
          by_cases ha : a = x
          · subst ha; simp [Finset.erase_subset]
          · simp [ha]
      refine ⟨fun a => (hsub a).trans (hchildren a), fun hy => ?_, l,
        fun z hz => ⟨hmem, (hl.below z hz).mono hchildren⟩,
        ⟨hl.counted.collections, hl.counted.nfts⟩,
        fun htree => hl.nodup_of_treeAt ((htree.child hmem).anti fun a b hb => hchildren a hb),
        fun hc => ?_⟩
      · have := hsub x hy
        simp at this
      · simp only [drainChild, get_bind_ok, hmem, if_true, removeChild, update_bind_ok]
        exact hl.checked hc
  · next hmem =>
      obtain ⟨-, rfl⟩ := pure_ok.1 h
      refine ⟨fun _ => Finset.Subset.refl _, hmem, [], by simp, .nil rfl, fun _ => List.nodup_nil,
        fun _ => ?_⟩
      simp [drainChild, hmem]

omit [Config W] in
/-- The loop: the subtrees of the children are counted one by one. -/
theorem drainChildren_tallied {body body' : NftKey → M W Unit}
    (hbody : ∀ y t t' u, body y t = .ok u t' →
      (∀ a, t'.children a ⊆ t.children a) ∧ ∃ l, Tallied (body' y) y l t t')
    {ys : List NftKey} (h : drainChildren x body ys s = .ok u s') :
    ∃ l, (∀ z ∈ l, ∃ y ∈ s.children x, Below s y z) ∧ Counted l s s' ∧
      (TreeAt (Lists s) x → l.Nodup) ∧ (Covers s l → drainChildren x body' ys s = .ok () s') := by
  unfold drainChildren at h ⊢
  induction ys generalizing s with
  | nil =>
      obtain ⟨-, rfl⟩ := pure_ok.1 h
      exact ⟨[], by simp, .nil rfl, fun _ => List.nodup_nil, fun _ => rfl⟩
  | cons y ys ih =>
      simp only [each, bind_ok] at h
      obtain ⟨_, s₁, hy, h⟩ := h
      obtain ⟨hsub, hgone, l₁, hl₁, hc₁, hnodup₁, hcheck₁⟩ := drainChild_tallied hbody hy
      obtain ⟨l₂, hl₂, hc₂, hnodup₂, hcheck₂⟩ := ih h
      have hbelow : ∀ z ∈ l₂, ∃ y' ∈ s.children x, y' ≠ y ∧ Below s y' z := by
        intro z hz
        obtain ⟨y', hy', hz'⟩ := hl₂ z hz
        exact ⟨y', hsub x hy', by rintro rfl; exact hgone hy', hz'.mono hsub⟩
      refine ⟨l₁ ++ l₂, fun z hz => ?_, hc₁.append hc₂, fun htree => ?_, fun hcov => ?_⟩
      · rcases List.mem_append.1 hz with hz | hz
        · exact ⟨y, (hl₁ z hz).1, (hl₁ z hz).2⟩
        · obtain ⟨y', hy', -, hz'⟩ := hbelow z hz
          exact ⟨y', hy', hz'⟩
      · have htree₁ : TreeAt (Lists s₁) x := htree.anti fun a b hb => hsub a hb
        refine List.nodup_append.2 ⟨hnodup₁ htree, hnodup₂ htree₁, ?_⟩
        -- an NFT counted twice would be below two children
        rintro z hz _ hz' rfl
        obtain ⟨y', hy', hne, hyz'⟩ := hbelow z hz'
        exact hne (htree.disjoint hy' (hl₁ z hz).1 hyz' (hl₁ z hz).2)
      · rw [each, bind_ok]
        exact ⟨(), s₁, hcheck₁ hcov.left, hcheck₂ (hcov.right hc₁)⟩

/-- **What `nft_burn` counts down.** -/
theorem nftBurn_tallied (h : nftBurn k x s = .ok u s') :
    ∃ l, Tallied (burnWith checkedDec k x) x l s s' := by
  -- the induction is on the budget: the children are burned with one less
  induction k generalizing x s s' u with
  | zero => simp [nftBurn] at h
  | succ k ih =>
      simp only [nftBurn, bind_ok, get_ok, update_ok, okOr_ok] at h
      obtain ⟨_, s₁, hun, _, s₂, hs₂, _, _, ⟨rfl, rfl⟩, _, s₃, hdrain, _, _, ⟨rfl, rfl⟩, col, _,
        ⟨hcol, rfl⟩, rfl⟩ := h
      obtain ⟨children, hs₁, hch⟩ := unlinkRecorded_ok hun
      have hchildren : s₂.children = children := by rw [← hs₂, hs₁]
      -- what the loop goes down is the index without the entry taken out
      have hdrains : Drains s x = Lists s₂ := by
        funext a b
        rw [Lists, hchildren]
        exact propext (hch a b).symm
      have hcols : s₂.collections = s.collections := by rw [← hs₂, hs₁]
      have hnfts : s₂.nfts = s.nfts.remove x := by rw [← hs₂, hs₁]
      obtain ⟨l, hl, hcount, hnodup, hcheck⟩ := drainChildren_tallied
        (fun y t t' u h => ⟨(nftBurn_ok h).subset, ih h⟩) hdrain
      have htally : ∀ c, tally (x :: l) c = tally l c + if x.1 = c then 1 else 0 := by
        intro c
        simp [tally, List.countP_cons]
      -- the last count is taken down once the children have been burned
      have hlast : (s.collections x.1).map (CollectionInfo.less (tally l x.1)) = some col := by
        rw [← hcols, ← hcount.collections, hcol]
      refine ⟨x :: l, ?_, ⟨fun c => ?_, fun y hy => ?_⟩, fun htree => ?_, fun hcov => ?_⟩
      · rintro z (_ | ⟨_, hz⟩)
        · exact .refl
        · obtain ⟨y, hy, hyz⟩ := hl z hz
          rw [hdrains]
          exact .head hy hyz
      · change s₃.collections.insert x.1 _ c = _
        rw [htally]
        by_cases hc : c = x.1
        · subst hc
          rw [StorageMap.insert_self, if_pos rfl]
          rw [Option.map_eq_some_iff] at hlast
          obtain ⟨col₀, hcol₀, rfl⟩ := hlast
          rw [hcol₀, Option.map_some, ← less_less]
          rfl
        · rw [StorageMap.insert_of_ne hc, hcount.collections, hcols, if_neg (Ne.symm hc)]
          rfl
      · rw [List.mem_cons, not_or] at hy
        exact (hcount.nfts y hy.2).trans (by rw [hnfts, StorageMap.remove_of_ne hy.1])
      · have htree₂ : TreeAt (Lists s₂) x := hdrains ▸ htree
        refine List.nodup_cons.2 ⟨fun hx => ?_, hnodup htree₂⟩
        obtain ⟨y, hy, hyx⟩ := hl x hx
        exact htree₂.not_reaches hy hyx
      · have hcov₂ : Covers s₂ l := by
          intro c col hcol
          have := hcov c col (hcols ▸ hcol)
          rw [htally] at this
          omega
        -- the count of the collection has one left
        have hpos : col.nftsCount ≠ 0 := by
          intro hzero
          rw [Option.map_eq_some_iff] at hlast
          obtain ⟨col₀, hcol₀, rfl⟩ := hlast
          have hle := hcov x.1 col₀ hcol₀
          have hnat := congrArg UInt32.toNat hzero
          rw [htally, if_pos rfl] at hle
          simp only [CollectionInfo.less, toNat_iterate_saturatingDec] at hnat
          change _ = 0 at hnat
          omega
        have hdec : checkedDec col.nftsCount = some (saturatingDec col.nftsCount) := by
          simp [checkedDec, saturatingDec, hpos]
        simp only [burnWith, bind_ok, get_ok, update_ok, okOr_ok]
        exact ⟨(), s₁, hun, (), s₂, hs₂, s₂, s₂, ⟨rfl, rfl⟩, (), s₃, hcheck hcov₂, s₃, s₃,
          ⟨rfl, rfl⟩, col, s₃, ⟨hcol, rfl⟩, _, s₃, ⟨hdec, rfl⟩, rfl⟩

end Rmrk
