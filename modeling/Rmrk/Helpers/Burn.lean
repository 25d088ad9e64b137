import Rmrk.Common.Tree
import Rmrk.Helpers.Lookup
import Rmrk.Model.Core
/-!
# What `nft_burn` burns

`nft_burn` follows the children index from the NFT it is called on, and
what it takes is what the index reaches: those records and their
resources, and of the index every entry under one of them and every entry
that one of their records names. A burn is put together from the burns
inside it: two burns in a row burn the union.
-/

namespace Rmrk

open Effect Relation

variable {W : Type} {s s' s₁ s₂ : State W} {x y : NftKey} {V : Set NftKey}

/-- `y` is listed under `x`. -/
def Lists (s : State W) (x y : NftKey) : Prop := y ∈ s.children x

/-- **The index reaches `y` from `x`**, which it reaches itself. -/
abbrev Below (s : State W) : NftKey → NftKey → Prop := ReflTransGen (Lists s)

/-- The parent an NFT's record names. -/
def State.recorded (s : State W) (x : NftKey) : Option NftKey :=
  (s.nfts x).bind fun nft =>
    match nft.owner with
    | .collectionAndNftTuple cid nid => some (cid, nid)
    | .accountId _ => none

/-- A collection, its count left out. -/
def CollectionInfo.uncounted (c : CollectionInfo) : CollectionInfo := { c with nftsCount := 0 }

/-- A state, what a burn writes left out. -/
def State.unburned (s : State W) : State W :=
  { s with
    collections := fun _ => none
    nfts := fun _ => none
    children := fun _ => ∅
    resources := fun _ => none }

/-- **The NFTs of `V` have been burned**, those of `O` being burned still:
the entries under them go one at a time. -/
structure Burning (O V : Set NftKey) (s s' : State W) : Prop where
  nfts_mem : ∀ y ∈ V, s'.nfts y = none
  nfts_notMem : ∀ y, y ∉ V → s'.nfts y = s.nfts y
  resources_mem : ∀ y ∈ V, ∀ r, s'.resources (y, r) = none
  resources_notMem : ∀ y, y ∉ V → ∀ r, s'.resources (y, r) = s.resources (y, r)
  /-- What is left of the index. -/
  mem_children : ∀ a b, a ∉ O → (b ∈ s'.children a ↔
    b ∈ s.children a ∧ a ∉ V ∧ ¬ (b ∈ V ∧ s.recorded b = some a))
  subset : ∀ a, s'.children a ⊆ s.children a
  removed : ∀ a b, b ∈ s.children a → b ∉ s'.children a → b ∈ V
  closed : ∀ a ∈ V, a ∉ O → ∀ b ∈ s.children a, b ∈ V
  collections : ∀ c, (s'.collections c).map CollectionInfo.uncounted =
    (s.collections c).map CollectionInfo.uncounted
  /-- Each has been counted down in a collection that is there. -/
  housed : ∀ y ∈ V, (s.collections y.1).isSome = true
  unburned : s'.unburned = s.unburned

abbrev Burned (V : Set NftKey) (s s' : State W) : Prop := Burning ∅ V s s'

theorem recorded_of_mem (h : ∀ y ∈ V, s'.nfts y = none) (hy : y ∈ V) :
    s'.recorded y = none := by
  simp [State.recorded, h y hy]

theorem recorded_of_notMem (h : ∀ y, y ∉ V → s'.nfts y = s.nfts y) (hy : y ∉ V) :
    s'.recorded y = s.recorded y := by
  simp [State.recorded, h y hy]

theorem Below.mono (h : ∀ a, s'.children a ⊆ s.children a) (hb : Below s' x y) : Below s x y :=
  ReflTransGen.mono (fun a _ hab => h a hab) _ _ hb

theorem not_lists (h : s.children x = ∅) (y : NftKey) : ¬ Lists s x y := by
  rw [Lists, h]
  exact Finset.notMem_empty y

/-- Where nothing is listed the index reaches nothing else. -/
theorem eq_of_below (h : s.children x = ∅) (hb : Below s x y) : y = x :=
  reaches_of_leaf (not_lists h) hb

namespace Burning

variable {O O' V V₁ V₂ : Set NftKey}

theorem refl : Burning O ∅ s s where
  nfts_mem := by simp
  nfts_notMem := by simp
  resources_mem := by simp
  resources_notMem := by simp
  mem_children := by simp
  subset _ := Finset.Subset.refl _
  removed _ _ hb hb' := absurd hb hb'
  closed := by simp
  collections _ := rfl
  housed := by simp
  unburned := rfl

/-- A burn takes no collection away. -/
theorem isSome_collections (h : Burning O V s s') (c : CollectionId) :
    (s'.collections c).isSome = (s.collections c).isSome := by
  have hcols := congrArg Option.isSome (h.collections c)
  rwa [Option.isSome_map, Option.isSome_map] at hcols

/-- **Two burns in a row burn the union.** -/
theorem trans (h₁ : Burning O V₁ s s₁) (h₂ : Burning O V₂ s₁ s₂) :
    Burning O (V₁ ∪ V₂) s s₂ where
  nfts_mem y hy := by
    by_cases hy₂ : y ∈ V₂
    · exact h₂.nfts_mem y hy₂
    · rw [h₂.nfts_notMem y hy₂, h₁.nfts_mem y (hy.resolve_right hy₂)]
  nfts_notMem y hy := by
    rw [Set.mem_union, not_or] at hy
    rw [h₂.nfts_notMem y hy.2, h₁.nfts_notMem y hy.1]
  resources_mem y hy r := by
    by_cases hy₂ : y ∈ V₂
    · exact h₂.resources_mem y hy₂ r
    · rw [h₂.resources_notMem y hy₂, h₁.resources_mem y (hy.resolve_right hy₂)]
  resources_notMem y hy r := by
    rw [Set.mem_union, not_or] at hy
    rw [h₂.resources_notMem y hy.2, h₁.resources_notMem y hy.1]
  mem_children a b ha := by
    rw [h₂.mem_children a b ha, h₁.mem_children a b ha, Set.mem_union, Set.mem_union]
    by_cases hb : b ∈ V₁
    · rw [recorded_of_mem h₁.nfts_mem hb]
      simp only [reduceCtorEq, and_false]
      tauto
    · rw [recorded_of_notMem h₁.nfts_notMem hb]
      tauto
  subset a := (h₂.subset a).trans (h₁.subset a)
  removed a b hb hb' := by
    by_cases hb₁ : b ∈ s₁.children a
    · exact .inr (h₂.removed a b hb₁ hb')
    · exact .inl (h₁.removed a b hb hb₁)
  closed a ha haO b hb := by
    rcases ha with ha | ha
    · exact .inl (h₁.closed a ha haO b hb)
    · by_cases hb₁ : b ∈ s₁.children a
      · exact .inr (h₂.closed a ha haO b hb₁)
      · exact .inl (h₁.removed a b hb hb₁)
  collections c := (h₂.collections c).trans (h₁.collections c)
  housed y hy := hy.elim (h₁.housed y) fun hy => h₁.isSome_collections y.1 ▸ h₂.housed y hy
  unburned := h₂.unburned.trans h₁.unburned

/-- Taking the entry of `y` under `x` out and burning `y` is part of
burning `x`. -/
theorem of_removeChild {t : State W}
    (ht : t = { s with children := Function.update s.children x ((s.children x).erase y) })
    (hy : y ∈ V) (h : Burned V t s') : Burning {x} V s s' := by
  have hne : ∀ a, a ≠ x → t.children a = s.children a := fun a ha => by simp [ht, ha]
  have hx : t.children x = (s.children x).erase y := by simp [ht]
  have hsub : ∀ a, t.children a ⊆ s.children a := by
    intro a
    by_cases ha : a = x
    · rw [ha, hx]; exact Finset.erase_subset _ _
    · rw [hne a ha]
  -- the one entry that goes is that of `y`
  have hremoved : ∀ a b, b ∈ s.children a → b ∉ t.children a → b ∈ V := by
    intro a b hb hb'
    by_cases ha : a = x
    · subst ha
      rw [hx, Finset.mem_erase, not_and'] at hb'
      exact (not_not.1 (hb' hb)) ▸ hy
    · exact absurd (hne a ha ▸ hb) hb'
  exact {
    nfts_mem := h.nfts_mem
    nfts_notMem := fun z hz => by rw [h.nfts_notMem z hz, ht]
    resources_mem := h.resources_mem
    resources_notMem := fun z hz r => by rw [h.resources_notMem z hz, ht]
    mem_children := by
      intro a b ha
      rw [h.mem_children a b (Set.notMem_empty a), hne a ha]
      simp only [State.recorded, ht]
    subset := fun a => (h.subset a).trans (hsub a)
    removed := by
      intro a b hb hb'
      by_cases hbt : b ∈ t.children a
      · exact h.removed a b hbt hb'
      · exact hremoved a b hb hbt
    closed := fun a ha hax b hb => h.closed a ha (Set.notMem_empty a) b (by rwa [hne a hax])
    collections := fun c => (h.collections c).trans (by rw [ht])
    housed := fun z hz => by
      have hcols := h.housed z hz
      rwa [ht] at hcols
    unburned := h.unburned.trans (by rw [ht]; rfl) }

/-- What is left to do once the entries under `x` have gone, where its
record and its own entry went before them. -/
theorem finish {t : State W}
    (ht : ∀ a b, b ∈ t.children a ↔ b ∈ s.children a ∧ ¬ (b = x ∧ s.recorded x = some a))
    (hnfts : t.nfts = s.nfts.remove x) (hres : t.resources = s.resources.removePrefix x)
    (hcol : t.collections = s.collections) (hun : t.unburned = s.unburned)
    (h : Burning {x} V t s') (hx : s'.children x = ∅) (hself : (s.collections x.1).isSome = true) :
    Burned (insert x V) s s' where
  nfts_mem y hy := by
    by_cases hyV : y ∈ V
    · exact h.nfts_mem y hyV
    · obtain rfl : y = x := hy.resolve_right hyV
      rw [h.nfts_notMem y hyV, hnfts, StorageMap.remove_self]
  nfts_notMem y hy := by
    rw [Set.mem_insert_iff, not_or] at hy
    rw [h.nfts_notMem y hy.2, hnfts, StorageMap.remove_of_ne hy.1]
  resources_mem y hy r := by
    by_cases hyV : y ∈ V
    · exact h.resources_mem y hyV r
    · obtain rfl : y = x := hy.resolve_right hyV
      rw [h.resources_notMem y hyV, hres, StorageMap.removePrefix_apply, if_pos rfl]
  resources_notMem y hy r := by
    rw [Set.mem_insert_iff, not_or] at hy
    rw [h.resources_notMem y hy.2, hres, StorageMap.removePrefix_apply, if_neg hy.1]
  mem_children a b _ := by
    by_cases ha : a = x
    · subst ha; simp [hx]
    · have hrec : b ≠ x → t.recorded b = s.recorded b := by
        intro hb
        simp [State.recorded, hnfts, StorageMap.remove_of_ne hb]
      rw [h.mem_children a b ha, ht, Set.mem_insert_iff, Set.mem_insert_iff]
      by_cases hb : b = x
      · subst hb
        -- its record has gone, and names no parent any more
        have hnone : t.recorded b = none := by simp [State.recorded, hnfts]
        simp only [hnone, reduceCtorEq, and_false]
        tauto
      · rw [hrec hb]; tauto
  subset a b hb := ((ht a b).1 (h.subset a hb)).1
  removed a b hb hb' := by
    by_cases hbt : b ∈ t.children a
    · exact .inr (h.removed a b hbt hb')
    · rw [ht, not_and, not_not] at hbt
      exact .inl (hbt hb).1
  closed a ha _ b hb := by
    by_cases hbt : b ∈ t.children a
    · by_cases hax : a = x
      · subst hax; exact .inr (h.removed a b hbt (by simp [hx]))
      · exact .inr (h.closed a (ha.resolve_left hax) hax b hbt)
    · rw [ht, not_and, not_not] at hbt
      exact .inl (hbt hb).1
  collections c := by rw [h.collections c, hcol]
  housed y hy := by
    rcases hy with rfl | hy
    · exact hself
    · exact hcol ▸ h.housed y hy
  unburned := h.unburned.trans hun

/-- A burn does not reach the other pallets. -/
theorem ext (h : Burning O V s s') : s'.ext = s.ext := by
  have hext := congrArg State.ext h.unburned
  exact hext

end Burning

/-! ## The loop and the recursion -/

open Rmrk.Core

variable {u : Unit}

/-- The entry an NFT's record names is taken out. -/
theorem unlinkRecorded_ok (h : unlinkRecorded x s = .ok u s') :
    ∃ children, s' = { s with children } ∧
      ∀ a b, b ∈ children a ↔ b ∈ s.children a ∧ ¬ (b = x ∧ s.recorded x = some a) := by
  simp only [unlinkRecorded, bind_ok, get_ok] at h
  obtain ⟨_, _, ⟨rfl, rfl⟩, h⟩ := h
  cases hx : s.nfts x with
  | none =>
      simp only [hx, pure_ok] at h
      exact ⟨s.children, h.2.symm, fun a b => by simp [State.recorded, hx]⟩
  | some nft =>
      cases ho : nft.owner with
      | accountId id =>
          simp only [hx, ho, pure_ok] at h
          exact ⟨s.children, h.2.symm, fun a b => by simp [State.recorded, hx, ho]⟩
      | collectionAndNftTuple cid nid =>
          simp only [hx, ho, removeChild, update_ok] at h
          refine ⟨_, h.symm, fun a b => ?_⟩
          by_cases ha : a = (cid, nid)
          · subst ha
            simp [State.recorded, hx, ho, Finset.mem_erase, and_comm]
          · simp [State.recorded, hx, ho, ha, Ne.symm ha]

theorem drainChild_ok {body : NftKey → M W Unit}
    (hbody : ∀ y s s' u, body y s = .ok u s' →
      ∃ V, y ∈ V ∧ (∀ z ∈ V, Below s y z) ∧ Burned V s s')
    (h : drainChild x body y s = .ok u s') :
    ∃ V, (∀ z ∈ V, ∃ y ∈ s.children x, Below s y z) ∧ Burning {x} V s s' ∧
      y ∉ s'.children x := by
  simp only [drainChild, bind_ok, get_ok] at h
  obtain ⟨_, _, ⟨rfl, rfl⟩, h⟩ := h
  split at h
  · next hmem =>
      simp only [bind_ok, removeChild, update_ok] at h
      obtain ⟨_, t, ht, h⟩ := h
      obtain ⟨V, hyV, hV, hB⟩ := hbody _ _ _ _ h
      have herase : t.children x = (s.children x).erase y := by simp [← ht]
      have hsub : ∀ a, t.children a ⊆ s.children a := by
        intro a
        by_cases ha : a = x
        · rw [ha, herase]; exact Finset.erase_subset _ _
        · simp [← ht, ha]
      refine ⟨V, fun z hz => ⟨y, hmem, (hV z hz).mono hsub⟩,
        Burning.of_removeChild ht.symm hyV hB, fun hy => ?_⟩
      exact Finset.notMem_erase y _ (herase ▸ hB.subset x hy)
  · next hmem =>
      simp only [pure_ok] at h
      exact ⟨∅, by simp, h.2 ▸ .refl, h.2 ▸ hmem⟩

/-- **The loop over the children burns each of them.** -/
theorem drainChildren_ok {body : NftKey → M W Unit}
    (hbody : ∀ y s s' u, body y s = .ok u s' →
      ∃ V, y ∈ V ∧ (∀ z ∈ V, Below s y z) ∧ Burned V s s')
    {ys : List NftKey} (h : drainChildren x body ys s = .ok u s') :
    ∃ V, (∀ z ∈ V, ∃ y ∈ s.children x, Below s y z) ∧ Burning {x} V s s' ∧
      ∀ y ∈ ys, y ∉ s'.children x := by
  unfold drainChildren at h
  induction ys generalizing s with
  | nil =>
      simp only [each, pure_ok] at h
      exact ⟨∅, by simp, h.2 ▸ .refl, by simp⟩
  | cons y ys ih =>
      simp only [each, bind_ok] at h
      obtain ⟨_, s₁, hy, h⟩ := h
      -- the rest of the loop runs in what the first child's burn leaves
      obtain ⟨V₂, hV₂, hB₂, hys⟩ := ih h
      obtain ⟨V₁, hV₁, hB₁, hgone⟩ := drainChild_ok hbody hy
      refine ⟨V₁ ∪ V₂, ?_, hB₁.trans hB₂, ?_⟩
      · rintro z (hz | hz)
        · exact hV₁ z hz
        · obtain ⟨y', hy', hz'⟩ := hV₂ z hz
          exact ⟨y', hB₁.subset x hy', hz'.mono hB₁.subset⟩
      · rintro z (_ | ⟨_, hz⟩)
        · exact fun hzx => hgone (hB₂.subset x hzx)
        · exact hys z hz

variable [Config W] {k : ℕ}

theorem nftBurn_burns (h : nftBurn k x s = .ok u s') :
    ∃ V, x ∈ V ∧ (∀ z ∈ V, Below s x z) ∧ Burned V s s' := by
  -- the induction is on the budget: the children are burned with one less
  induction k generalizing x s s' u with
  | zero => simp [nftBurn] at h
  | succ k ih =>
      simp only [nftBurn, bind_ok, get_ok, update_ok, okOr_ok] at h
      obtain ⟨_, s₁, hun, _, s₂, hs₂, _, _, ⟨rfl, rfl⟩, _, s₃, hdrain, _, _, ⟨rfl, rfl⟩, c, _,
        ⟨hc, rfl⟩, rfl⟩ := h
      obtain ⟨children, hs₁, hch⟩ := unlinkRecorded_ok hun
      have hs : s₂.children = children := by rw [← hs₂, hs₁]
      rw [← hs] at hch
      obtain ⟨V, hV, hB, hys⟩ := drainChildren_ok (fun y s s' u h => ih h) hdrain
      refine ⟨insert x V, Set.mem_insert _ _, ?_, ?_⟩
      · rintro z (rfl | hz)
        · exact .refl
        · obtain ⟨y, hy, hyz⟩ := hV z hz
          exact .head ((hch x y).1 hy).1 (hyz.mono fun a b hb => ((hch a b).1 hb).1)
      · -- storage comes to all there is, so the loop leaves nothing
        have hempty : s₃.children x = ∅ := by
          refine Finset.eq_empty_of_forall_notMem fun y hy => ?_
          exact hys y (Config.mem_iterKeys.2 (hB.subset x hy)) hy
        have hself : (s.collections x.1).isSome = true := by
          have hcols := hB.isSome_collections x.1
          rw [hc, ← hs₂, hs₁] at hcols
          exact hcols.symm
        have hfin := Burning.finish hch (by rw [← hs₂, hs₁]) (by rw [← hs₂, hs₁])
          (by rw [← hs₂, hs₁]) (by rw [← hs₂, hs₁]; rfl) hB hempty hself
        exact { hfin with
          collections := by
            intro c'
            rw [← hfin.collections c']
            simp only [StorageMap.insert_apply]
            split
            · next hcc => subst hcc; simp [hc, CollectionInfo.uncounted]
            · rfl
          housed := hfin.housed
          unburned := hfin.unburned }

/-- **`nft_burn` burns what the index reaches**, and nothing else. -/
theorem nftBurn_ok (h : nftBurn k x s = .ok u s') : Burned {y | Below s x y} s s' := by
  obtain ⟨V, hx, hV, hB⟩ := nftBurn_burns h
  have hall : V = {y | Below s x y} := by
    refine Set.Subset.antisymm hV fun y hy => ?_
    induction hy with
    | refl => exact hx
    | tail _ hbc ih => exact hB.closed _ ih (Set.notMem_empty _) _ hbc
  exact hall ▸ hB

end Rmrk
