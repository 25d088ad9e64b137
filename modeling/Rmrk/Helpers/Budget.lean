import Mathlib.Data.Set.Card
import Rmrk.Helpers.Burn
/-!
# How far `nft_burn` gets

`nft_burn` calls itself with one less of its budget on each level of the
index. On a tree the budget is all it can fail for, and it is enough
exactly if no walk down the index is longer: what the burns of some
children leave of the index still holds the other children's subtrees
whole. Whatever the index looks like, a budget above the number of its
entries is enough, as each level takes one of them out.
-/

namespace Rmrk

open Effect Relation Rmrk.Core

variable {W : Type} {s s' s₁ t : State W} {x y y' : NftKey} {k : ℕ}

/-- **`m` returns exactly if `p`**, and else fails for want of budget. -/
structure Settles (m : M W Unit) (s : State W) (p : Prop) : Prop where
  ok : p → ∃ s', m s = .ok () s'
  error : ¬ p → ∃ s', m s = .error Error.tooManyRecursions s'

/-- All the index reaches from `x` is of collections that are there. -/
def Housed (s : State W) (x : NftKey) : Prop :=
  ∀ y, Below s x y → (s.collections y.1).isSome = true

theorem Settles.congr {m : M W Unit} {p q : Prop} (hpq : p ↔ q) (h : Settles m s p) :
    Settles m s q :=
  ⟨fun hq => h.ok (hpq.2 hq), fun hq => h.error (mt hpq.1 hq)⟩

/-- A sequence that goes on where its first part has returned. -/
theorem Settles.bind {m : M W Unit} {f : Unit → M W Unit} {p q : Prop} (h : Settles m s p)
    (h' : ∀ s₁, m s = .ok () s₁ → Settles (f ()) s₁ q) : Settles (m >>= f) s (p ∧ q) := by
  by_cases hp : p
  · obtain ⟨s₁, hm⟩ := h.ok hp
    have hf := h' s₁ hm
    constructor
    · rintro ⟨-, hq⟩
      rw [bind_of_ok hm]
      exact hf.ok hq
    · intro hpq
      rw [bind_of_ok hm]
      exact hf.error fun hq => hpq ⟨hp, hq⟩
  · obtain ⟨s', hm⟩ := h.error hp
    exact ⟨fun hpq => absurd hpq.1 hp, fun _ => ⟨s', bind_error.2 (.inl hm)⟩⟩

/-! ## What is left whole -/

/-- What the burn of one child leaves of the index under `x`. -/
structure Pruned (x y : NftKey) (s s₁ : State W) : Prop where
  subset : ∀ a, s₁.children a ⊆ s.children a
  gone : y ∉ s₁.children x
  kept : ∀ y', y' ∈ s.children x → y' ≠ y → y' ∈ s₁.children x
  whole : ∀ y', y' ∈ s.children x → y' ≠ y → ∀ a b, Below s y' a → (Lists s₁ a b ↔ Lists s a b)

/-- **The other children's subtrees are left whole.** -/
theorem Pruned.of_burned (htree : TreeAt (Lists s) x) (hy : y ∈ s.children x)
    (ht : t = { s with children := Function.update s.children x ((s.children x).erase y) })
    (hB : Burned {z | Below t y z} t s₁) : Pruned x y s s₁ := by
  have hne : ∀ a, a ≠ x → t.children a = s.children a := fun a ha => by simp [ht, ha]
  have hx : t.children x = (s.children x).erase y := by simp [ht]
  have hsub : ∀ a, t.children a ⊆ s.children a := by
    intro a
    by_cases ha : a = x
    · rw [ha, hx]; exact Finset.erase_subset _ _
    · rw [hne a ha]
  -- what has been burned is nothing the other children reach
  have hapart : ∀ y' z, y' ∈ s.children x → y' ≠ y → Below s y' z → z ∉ {z | Below t y z} :=
    fun y' z hy' hyy' hz hV => hyy' (htree.disjoint hy' hy hz (hV.mono hsub))
  refine ⟨fun a => (hB.subset a).trans (hsub a), fun hmem => ?_, fun y' hy' hyy' => ?_,
    fun y' hy' hyy' a b ha => ?_⟩
  · exact Finset.notMem_erase y _ (hx ▸ hB.subset x hmem)
  · refine (hB.mem_children x y' (Set.notMem_empty x)).2 ⟨?_, fun hV => ?_, fun hV => ?_⟩
    · rw [hx]
      exact Finset.mem_erase.2 ⟨hyy', hy'⟩
    · exact htree.not_reaches hy (hV.mono hsub)
    · exact hapart y' y' hy' hyy' .refl hV.1
  · have hax : a ≠ x := by
      rintro rfl
      exact htree.not_reaches hy' ha
    change b ∈ s₁.children a ↔ b ∈ s.children a
    rw [hB.mem_children a b (Set.notMem_empty a), hne a hax]
    refine and_iff_left_of_imp fun hb => ⟨hapart y' a hy' hyy' ha, fun hV => ?_⟩
    exact hapart y' b hy' hyy' (ha.tail hb) hV.1

theorem Pruned.of_notMem (hy : y ∉ s.children x) : Pruned x y s s :=
  ⟨fun _ => Finset.Subset.refl _, hy, fun _ hy' _ => hy', fun _ _ _ _ _ _ => Iff.rfl⟩

/-- **What the other children need is what they needed.** -/
theorem Pruned.forall_iff (h : Pruned x y s s₁) {ys : List NftKey} :
    (∀ y' ∈ ys, y' ∈ s₁.children x → Shallow (Lists s₁) k y') ↔
      ∀ y' ∈ ys, y' ≠ y → y' ∈ s.children x → Shallow (Lists s) k y' := by
  refine forall₂_congr fun y' _ => ⟨fun hs hne hy' => ?_, fun hs hy' => ?_⟩
  · exact (Shallow.congr (h.whole y' hy' hne)).1 (hs (h.kept y' hy' hne))
  · have hne : y' ≠ y := by
      rintro rfl
      exact h.gone hy'
    exact (Shallow.congr (h.whole y' (h.subset x hy') hne)).2 (hs hne (h.subset x hy'))

/-- Less of the index reaches less, and no collection has gone. -/
theorem Housed.of_le (hh : Housed s x) (hsub : ∀ a, t.children a ⊆ s.children a)
    (hcols : ∀ c, (s.collections c).isSome = true → (t.collections c).isSome = true) :
    Housed t x :=
  fun y hy => hcols y.1 (hh y (hy.mono hsub))

theorem Housed.anti (hh : Housed s x) (hsub : ∀ a, t.children a ⊆ s.children a)
    (hcols : t.collections = s.collections) : Housed t x :=
  hh.of_le hsub fun c hc => by rwa [hcols]

/-- What a burn leaves is as housed as it was. -/
theorem Burning.housed_of_housed {O V : Set NftKey} (hB : Burning O V s s₁) (hh : Housed s x) :
    Housed s₁ x :=
  hh.of_le hB.subset fun c hc => by rwa [hB.isSome_collections]

/-! ## The loop and the recursion -/

variable [Config W]

/-- What the recursion is to be shown to do, on every tree. -/
def Budgeted (W : Type) [Config W] (k : ℕ) : Prop :=
  ∀ (x : NftKey) (s : State W), TreeAt (Lists s) x → Housed s x →
    Settles (nftBurn k x) s (Shallow (Lists s) k x)

/-- A pass of the loop: `y` is burned if it is there. -/
theorem drainChild_settles (ih : Budgeted W k) (htree : TreeAt (Lists s) x) (hh : Housed s x) :
    Settles (drainChild x (nftBurn k) y) s (y ∈ s.children x → Shallow (Lists s) k y) ∧
      ∀ s₁, drainChild x (nftBurn k) y s = .ok () s₁ → Pruned x y s s₁ ∧ Housed s₁ x := by
  by_cases hy : y ∈ s.children x
  · obtain ⟨t, ht⟩ : ∃ t, t = { s with
        children := Function.update s.children x ((s.children x).erase y) } := ⟨_, rfl⟩
    have hrun : drainChild x (nftBurn k) y s = nftBurn k y t := by
      rw [drainChild, get_bind, if_pos hy, ht]
      rfl
    have hsub : ∀ a, t.children a ⊆ s.children a := by
      intro a
      by_cases ha : a = x
      · subst ha; simp [ht, Finset.erase_subset]
      · simp [ht, ha]
    have hwhole : ∀ a b, Below s y a → (Lists t a b ↔ Lists s a b) := by
      intro a b ha
      have hax : a ≠ x := by
        rintro rfl
        exact htree.not_reaches hy ha
      simp [Lists, ht, hax]
    have hhy : Housed s y := fun z hz => hh z (.head hy hz)
    have hsettles := ih y t ((htree.child hy).anti fun a b hb => hsub a hb)
      (hhy.anti hsub (by rw [ht]))
    rw [Shallow.congr hwhole] at hsettles
    refine ⟨⟨fun hs => hrun ▸ hsettles.ok (hs hy), fun hs => hrun ▸ hsettles.error ?_⟩,
      fun s₁ h => ?_⟩
    · exact fun hs' => hs fun _ => hs'
    · rw [hrun] at h
      have hB := nftBurn_ok h
      exact ⟨.of_burned htree hy ht hB, hB.housed_of_housed (hh.anti hsub (by rw [ht]))⟩
  · have hrun : drainChild x (nftBurn k) y s = .ok () s := by
      rw [drainChild, get_bind, if_neg hy]
      rfl
    refine ⟨⟨fun _ => ⟨s, hrun⟩, fun hs => absurd (fun hmem => absurd hmem hy) hs⟩, fun s₁ h => ?_⟩
    obtain rfl : s = s₁ := by simpa [hrun] using h
    exact ⟨.of_notMem hy, hh⟩

omit [Config W] in
theorem unlinkRecorded_returns (x : NftKey) (s : State W) :
    ∃ s', unlinkRecorded x s = .ok () s' := by
  rw [unlinkRecorded, get_bind]
  cases hx : s.nfts x with
  | none => exact ⟨s, by simp⟩
  | some nft => cases ho : nft.owner <;> simp [ho, removeChild]

/-- **The loop gets through the children exactly if the budget is enough
for each.** -/
theorem drainChildren_settles (ih : Budgeted W k) {ys : List NftKey} (htree : TreeAt (Lists s) x)
    (hh : Housed s x) : Settles (drainChildren x (nftBurn k) ys) s
      (∀ y ∈ ys, y ∈ s.children x → Shallow (Lists s) k y) := by
  unfold drainChildren
  induction ys generalizing s with
  | nil => exact ⟨fun _ => ⟨s, rfl⟩, fun h => absurd (by simp) h⟩
  | cons y ys hys =>
      obtain ⟨hpass, hleft⟩ := drainChild_settles (y := y) ih htree hh
      have hrest : ∀ s₁, drainChild x (nftBurn k) y s = .ok () s₁ →
          Settles (each (drainChild x (nftBurn k)) ys) s₁
            (∀ y' ∈ ys, y' ≠ y → y' ∈ s.children x → Shallow (Lists s) k y') := by
        intro s₁ h
        obtain ⟨hpruned, hh₁⟩ := hleft s₁ h
        exact (hys (htree.anti fun a b hb => hpruned.subset a hb) hh₁).congr hpruned.forall_iff
      refine (hpass.bind hrest).congr ?_
      rw [List.forall_mem_cons]
      refine and_congr_right fun hy => forall₂_congr fun y' _ => ?_
      refine ⟨fun h hy' => ?_, fun h _ => h⟩
      by_cases hne : y' = y
      · exact hne ▸ hy (hne ▸ hy')
      · exact h hne hy'

/-- What `nft_burn` does once the children are gone. -/
def countDown (x : NftKey) : M W Unit := do
  let s ← get
  let collection ← okOr (s.collections x.1) Error.collectionUnknown
  let fewer := { collection with nftsCount := saturatingDec collection.nftsCount }
  update fun s => { s with collections := s.collections.insert x.1 fewer }

omit [Config W] in
theorem countDown_settles (hx : (s.collections x.1).isSome = true) :
    Settles (countDown x) s True := by
  obtain ⟨col, hcol⟩ := Option.isSome_iff_exists.1 hx
  refine ⟨fun _ => ?_, fun h => absurd trivial h⟩
  rw [countDown, get_bind, hcol]
  exact ⟨_, rfl⟩

/-- What the loop of `nft_burn` is run in: the record of `x` is gone, its
resources, and the entry the record named. -/
theorem nftBurn_succ (k : ℕ) (x : NftKey) (s : State W) :
    ∃ t : State W, t.collections = s.collections ∧
      (∀ a b, b ∈ t.children a ↔ b ∈ s.children a ∧ ¬ (b = x ∧ s.recorded x = some a)) ∧
      nftBurn (k + 1) x s = (drainChildren x (nftBurn k) (Config.iterKeys W (t.children x)) >>=
        fun _ => countDown x) t := by
  obtain ⟨s₁, hun⟩ := unlinkRecorded_returns x s
  obtain ⟨children, rfl, hch⟩ := unlinkRecorded_ok hun
  refine ⟨{ s with
    children
    nfts := s.nfts.remove x
    resources := s.resources.removePrefix x }, rfl, hch, ?_⟩
  rw [nftBurn, bind_of_ok hun]
  rfl

/-- **On a tree `nft_burn` returns exactly if no walk down the index meets
more NFTs than its budget**, and else fails for want of budget. -/
theorem nftBurn_settles (k : ℕ) : Budgeted W k := by
  induction k with
  | zero => exact fun x s _ _ => ⟨False.elim, fun _ => ⟨s, rfl⟩⟩
  | succ k ih =>
      intro x s htree hh
      obtain ⟨t, hcols, hch, hrun⟩ := nftBurn_succ k x s
      have hsub : ∀ a, t.children a ⊆ s.children a := fun a b hb => ((hch a b).1 hb).1
      have hht : Housed t x := hh.anti hsub hcols
      -- the entry taken out leads to `x`, and no walk from `x` takes it
      have hwhole : ∀ a b, Below s x a → (Lists t a b ↔ Lists s a b) := by
        intro a b ha
        refine (hch a b).trans (and_iff_left_of_imp fun hb hx => ?_)
        obtain ⟨rfl, -⟩ := hx
        exact htree.root a ha hb
      have hdrained : Settles (drainChildren x (nftBurn k) (Config.iterKeys W (t.children x))) t
          (∀ y ∈ Config.iterKeys W (t.children x), y ∈ t.children x → Shallow (Lists t) k y) :=
        drainChildren_settles ih (htree.anti fun a b hb => hsub a hb) hht
      have hloop := hdrained.bind (f := fun _ => countDown x) (q := True) fun s₃ hdrain => by
        obtain ⟨V, -, hB, -⟩ := drainChildren_ok (fun y t t' u h => nftBurn_burns h) hdrain
        exact countDown_settles (hB.housed_of_housed hht x .refl)
      rw [← Shallow.congr hwhole]
      refine ⟨fun hs => hrun ▸ hloop.ok ⟨fun y _ hy => hs y hy, trivial⟩,
        fun hs => hrun ▸ hloop.error fun hall => hs fun y hy => ?_⟩
      exact hall.1 y (Config.mem_iterKeys.2 hy) hy

/-! ## A budget that is always enough -/

/-- The entries of the index. -/
def State.entries (s : State W) : Set (NftKey × NftKey) := {e | e.2 ∈ s.children e.1}

omit [Config W] in
/-- A smaller index has no more of them. -/
theorem entries_ncard_mono (h : ∀ a, t.children a ⊆ s.children a) :
    t.entries.ncard ≤ s.entries.ncard :=
  Set.ncard_le_ncard (fun e he => h e.1 he) (Set.toFinite _)

omit [Config W] in
/-- An entry that is taken out is one less. -/
theorem entries_ncard_erase (hy : y ∈ s.children x)
    (ht : t = { s with children := Function.update s.children x ((s.children x).erase y) }) :
    t.entries.ncard < s.entries.ncard := by
  refine Set.ncard_lt_ncard ⟨fun e he => ?_, fun hsub => ?_⟩ (Set.toFinite _)
  · change e.2 ∈ s.children e.1
    change e.2 ∈ t.children e.1 at he
    by_cases hx : e.1 = x
    · rw [ht, hx] at he
      simp only [Function.update_self] at he
      exact hx ▸ Finset.mem_of_mem_erase he
    · simpa [ht, hx] using he
  · have hmem : y ∈ t.children x := hsub (show (x, y) ∈ s.entries from hy)
    simp [ht] at hmem

/-- What the recursion is to be shown to do, on any index. -/
def Affordable (W : Type) [Config W] (k : ℕ) : Prop :=
  ∀ (x : NftKey) (s : State W), Housed s x → s.entries.ncard < k →
    ∃ s', nftBurn k x s = .ok () s'

/-- A pass of the loop: the entry of `y` is out before `y` is burned. -/
theorem drainChild_returns (ih : Affordable W k) (hh : Housed s x) (hk : s.entries.ncard ≤ k) :
    ∃ s₁, drainChild x (nftBurn k) y s = .ok () s₁ := by
  rw [drainChild, get_bind]
  by_cases hy : y ∈ s.children x
  · rw [if_pos hy]
    have hhy : Housed s y := fun z hz => hh z (.head hy hz)
    have hlt := entries_ncard_erase hy rfl
    refine ih y _ (hhy.anti (fun a => ?_) rfl) (hlt.trans_le hk)
    by_cases ha : a = x
    · subst ha; simp [Finset.erase_subset]
    · simp [ha]
  · rw [if_neg hy]
    exact ⟨s, rfl⟩

/-- **The loop over the children returns**: every pass leaves an index that
the budget is still enough for. -/
theorem drainChildren_returns (ih : Affordable W k) {l : List NftKey} (hh : Housed s x)
    (hk : s.entries.ncard ≤ k) : ∃ s', drainChildren x (nftBurn k) l s = .ok () s' := by
  unfold drainChildren
  induction l generalizing s with
  | nil => exact ⟨s, rfl⟩
  | cons y l hl =>
      obtain ⟨s₁, hpass⟩ := drainChild_returns (y := y) ih hh hk
      -- what a burn leaves is housed still, and its index no larger
      obtain ⟨V, -, hB, -⟩ := drainChild_ok (fun y t t' u h => nftBurn_burns h) hpass
      obtain ⟨s', hrest⟩ := hl (hB.housed_of_housed hh)
        ((entries_ncard_mono hB.subset).trans hk)
      exact ⟨s', by rw [each, bind_of_ok hpass]; exact hrest⟩

/-- **A budget above the number of entries is enough**, whatever the index
looks like. -/
theorem nftBurn_returns (k : ℕ) : Affordable W k := by
  induction k with
  | zero => exact fun x s _ hk => absurd hk (Nat.not_lt_zero _)
  | succ k ih =>
      intro x s hh hk
      obtain ⟨t, hcols, hch, hrun⟩ := nftBurn_succ k x s
      have hsub : ∀ a, t.children a ⊆ s.children a := fun a b hb => ((hch a b).1 hb).1
      have hht : Housed t x := hh.anti hsub hcols
      have hroom : t.entries.ncard ≤ k := (entries_ncard_mono hsub).trans (Nat.le_of_lt_succ hk)
      obtain ⟨s₃, hdrain⟩ :=
        drainChildren_returns ih (l := Config.iterKeys W (t.children x)) hht hroom
      obtain ⟨V, -, hB, -⟩ := drainChildren_ok (fun y t t' u h => nftBurn_burns h) hdrain
      have hlast := countDown_settles (hB.housed_of_housed hht x .refl)
      rw [hrun, bind_of_ok hdrain]
      exact hlast.ok trivial

/-- **What has been burned was housed.** -/
theorem housed_of_nftBurn (h : nftBurn k x s = .ok () s') : Housed s x :=
  fun _ hy => (nftBurn_ok h).housed _ hy

end Rmrk
