import Rmrk.Common.Tree
import Rmrk.Helpers.Budget
import Rmrk.Helpers.Register
import Rmrk.Properties.Transfers
/-!
# What can be sent or burned

The root owner of an NFT can send it unless it is locked, equipped or not
transferable. What he cannot send he can burn, but `nft_burn` goes wherever
the index leads, and fails at an NFT of a collection that has been
destroyed. The index leads to such NFTs: `accept_nft` leaves the entry of
what it moves, and an NFT that is burned takes only the entry out that its
record names.
-/

namespace Rmrk

open Relation Pointer Effect

variable {W : Type} [Config W] {s s' : State W} {act : Act W} {x y z p : NftKey}
variable {o a : AccountId}

/-! ## The property -/

/-- **Some account can send `x` or burn it.** -/
def Usable (s : State W) (x : NftKey) : Prop :=
  ∃ o s', (∃ t, dispatch o (.send x t) s = .ok () s') ∨
    ∃ k, dispatch o (.burnNft x k) s = .ok () s'

/-- Nothing holds `x` back. -/
structure Unheld (s : State W) (x : NftKey) : Prop where
  unlocked : s.lock x = false
  record : ∃ nft, s.nfts x = some nft ∧ nft.transferable = true ∧ nft.equipped = false

/-- **`x` can only be burned**: it is there, and something holds it back. -/
structure Fixed (s : State W) (x : NftKey) : Prop where
  there : (s.nfts x).isSome = true
  held : ¬ Unheld s x

/-- `burn_nft` has a budget above the number of entries of the index. -/
def Roomy (s : State W) : Prop := s.entries.ncard < 4294967295

/-- **What can only be burned can be**: the index leads from it to no
collection that has gone. -/
def WaysOut (s : State W) : Prop := ∀ z, Fixed s z → Housed s z

/-- **The largest budget is enough for the root owner to burn what is
housed.** -/
theorem Core.burnNft_of_housed [Items W] (hroot : RootOwner s x o) (hroom : Roomy s)
    (hh : Housed s x) : ∃ s', burnNft o x 4294967295 s = .ok () s' := by
  obtain ⟨root, hlookup⟩ := hroot
  obtain ⟨s₁, hburn⟩ := nftBurn_returns (UInt32.toNat 4294967295) x s hh hroom
  have hitem : (Uniques.owner s₁.ext x).isSome = true := by
    rw [(nftBurn_ok hburn).ext]
    exact RootOwner.owner_isSome ⟨root, hlookup⟩
  obtain ⟨w, hw⟩ := Items.doBurn_ok hitem
  simp only [burnNft, transactional_ok, lookupRootOwner_bind_ok, ensure_bind_ok]
  refine ⟨{ s₁ with ext := w }, o, root, hlookup, rfl, ?_⟩
  rw [bind_of_ok hburn]
  exact external_ok.2 ⟨w, hw, rfl⟩

/-- And only what is housed is burned, whatever the budget. -/
theorem Core.housed_of_burnNft {k : UInt32} (h : burnNft o x k s = .ok () s') :
    Housed s x := by
  simp only [burnNft, transactional_ok, lookupRootOwner_bind_ok, ensure_bind_ok] at h
  obtain ⟨r, root, -, -, h⟩ := h
  rw [bind_ok] at h
  obtain ⟨_, s₁, hburn, -⟩ := h
  exact housed_of_nftBurn hburn

/-- **When something can be done with an NFT**: exactly if nothing holds it
back, or the index leads from it to no collection that has gone. -/
theorem usable_iff [Items W] (hroot : RootOwner s x o) (hroom : Roomy s) :
    Usable s x ↔ Unheld s x ∨ Housed s x := by
  constructor
  · rintro ⟨b, s', ⟨t, h⟩ | ⟨k, h⟩⟩
    · have hsends : Sends s b x t := Core.sends_of_send h
      exact .inl ⟨hsends.unlocked, hsends.record⟩
    · exact .inr (Core.housed_of_burnNft h)
  · rintro (hx | hx)
    · have hsends : Sends s o x (.accountId o) := ⟨hroot, hx.record, hx.unlocked, trivial⟩
      obtain ⟨s', h⟩ := Core.send_of_sends hsends
      exact ⟨o, s', .inl ⟨_, h⟩⟩
    · obtain ⟨s', h⟩ := Core.burnNft_of_housed hroot hroom hx
      exact ⟨o, s', .inr ⟨_, h⟩⟩

/-! ## The condition -/

/-- **Nothing that can only be burned leads on to `x`**, put where `a` owns
it, unless `x` is housed. -/
def Harmless (s : State W) (x : NftKey) (a : AccountId) : Prop :=
  ∀ p, decodeNftAccountId a = some p → ∀ z, Fixed s z → Below s z p → Housed s x

/-- **A step closes no way out**: what is listed or equipped is housed, what
is put under an NFT that can only be burned is too, and no such NFT leads to
the collection that is destroyed. -/
def KeepsWays (s : State W) : Act W → Prop
  | .signed _ (.send x t) => Harmless s x t.account
  | .signed o (.buy x _) => Harmless s x o
  | .signed _ (.acceptOffer x offerer) =>
      ∀ offer, s.offers (x, offerer) = some offer → Harmless s x offer.maker
  | .signed _ (.equip item equipper _ b sl) =>
      s.equippings (equipper, b, sl) = none → Housed s item
  | .signed _ (.list x ..) => Housed s x
  | .signed _ (.destroyCollection c) => ∀ z, Fixed s z → ∀ y, Below s z y → y.1 ≠ c
  | _ => True

/-- The collection a step destroys. -/
def Act.razes : Act W → Option CollectionId
  | .signed _ (.destroyCollection c) => some c
  | _ => none

/-- What moves no NFT closes no way out, as long as it destroys no
collection. -/
theorem keepsWays_of_still (h : act.still = true) (hact : act.razes = none) : KeepsWays s act := by
  cases act with
  | between => trivial
  | signed o call =>
      cases call <;> trivial

/-! ## What a step does to what holds an NFT back -/

omit [Config W] in
/-- What holds an NFT back is its lock and its record. -/
theorem fixed_congr (hlock : s'.lock z = s.lock z) (hnfts : s'.nfts z = s.nfts z) :
    Fixed s' z ↔ Fixed s z := by
  have hunheld : Unheld s' z ↔ Unheld s z := by
    constructor
    · exact fun h => ⟨hlock ▸ h.unlocked, hnfts ▸ h.record⟩
    · exact fun h => ⟨hlock ▸ h.unlocked, hnfts ▸ h.record⟩
  constructor
  · exact fun h => ⟨hnfts ▸ h.there, mt hunheld.2 h.held⟩
  · exact fun h => ⟨hnfts ▸ h.there, mt hunheld.1 h.held⟩

omit [Config W] in
/-- What is held back less is not held back where it was not. -/
theorem Fixed.of_unheld (hfix : Fixed s' z)
    (hthere : (s'.nfts z).isSome = true → (s.nfts z).isSome = true)
    (hunheld : Unheld s z → Unheld s' z) : Fixed s z :=
  ⟨hthere hfix.there, mt hunheld hfix.held⟩

/-- What is sent is held back by nothing once it has been. -/
theorem Sent.unheld {newOwner : AccountIdOrCollectionNftTuple} {old new : AccountId}
    {nft nft' : NftInfo} (h : Sent o x newOwner old new nft nft' s s')
    (hlock : s'.lock x = false) : Unheld s' x := by
  refine ⟨hlock, nft', by rw [h.nfts, StorageMap.insert_self], ?_⟩
  by_cases hap : ApprovalRequired s o newOwner
  · rw [h.unapproved hap]
    exact ⟨h.transferable, h.equipped⟩
  · rw [h.approved hap]
    exact ⟨h.transferable, h.equipped⟩

/-- No collection goes but by `destroy_collection`. -/
theorem Registered.isSome_collections {c : CollectionId} (h : Registered s s' act)
    (hact : act.razes = none) (hc : (s.collections c).isSome = true) :
    (s'.collections c).isSome = true := by
  cases h with
  | same _ h => rwa [h.collections]
  | @minted _ d _ h =>
      obtain ⟨col, -, -, -, hcols⟩ := h.collections
      rw [hcols]
      by_cases hcd : c = d <;> simp [hcd, hc]
  | created _ _ hcols =>
      rw [hcols]
      by_cases hcd : c = s.collectionIndex <;> simp [hcd, hc]
  | destroyed => simp [Act.razes] at hact
  | issuerChanged _ hcols =>
      rw [hcols]
      rwa [Option.isSome_iff_ne_none, ne_eq, StorageMap.mutate_eq_none_iff, ← ne_eq,
        ← Option.isSome_iff_ne_none]
  | @locked _ d _ _ _ hcols =>
      rw [hcols]
      by_cases hcd : c = d <;> simp [hcd, hc]
  | burned _ h =>
      obtain ⟨l, -, hcount, -⟩ := h.tallied
      rw [hcount.collections, Option.isSome_map]
      exact hc

/-- Which takes out the collection it names. -/
theorem Registered.of_razes {c : CollectionId} (h : Registered s s' act)
    (hact : act.razes = some c) :
    s'.collections = s.collections.remove c ∧ ∃ o, act = .signed o (.destroyCollection c) := by
  cases act with
  | between => exact nomatch (show none = some c from hact)
  | signed o call =>
      cases call with
      | destroyCollection d =>
          obtain rfl : d = c := Option.some.inj hact
          cases h with
          | same hreg => exact nomatch (show true = false from hreg)
          | minted hmint => exact nomatch (show none = some _ from hmint)
          | destroyed _ hcols => exact ⟨hcols, o, rfl⟩
          | burned hburn => exact nomatch (show none = some _ from hburn)
      | _ => exact nomatch (show none = some c from hact)

/-! ## What it does to the ways out -/

omit [Config W] in
/-- Where nothing is led to that was not, a way out is kept by what has not
come to be held back. -/
theorem WaysOut.of_le (hs : WaysOut s) (hsub : ∀ a, s'.children a ⊆ s.children a)
    (hcols : ∀ c, (s.collections c).isSome = true → (s'.collections c).isSome = true)
    (hfixed : ∀ z, Fixed s' z → Fixed s z ∨ Housed s' z) : WaysOut s' :=
  fun z hz => (hfixed z hz).elim (fun hz => (hs z hz).of_le hsub hcols) id

omit [Config W] in
/-- **What comes to be held back needs to be housed.** -/
theorem waysOut_iff_of_fixed (hs : WaysOut s) (hchildren : s'.children = s.children)
    (hcols : s'.collections = s.collections) (hfixed : ∀ z, Fixed s' z ↔ Fixed s z ∨ z = x) :
    WaysOut s' ↔ Housed s x := by
  have hhoused : ∀ z, Housed s' z ↔ Housed s z := fun z =>
    ⟨fun h => h.anti (fun a => by rw [hchildren]) hcols.symm,
      fun h => h.anti (fun a => by rw [hchildren]) hcols⟩
  constructor
  · intro hs'
    exact (hhoused x).1 (hs' x ((hfixed x).2 (.inr rfl)))
  · intro hx z hz
    refine (hhoused z).2 ?_
    rcases (hfixed z).1 hz with hz | rfl
    · exact hs z hz
    · exact hx

/-- **What is put under an NFT has to be housed where one that can only be
burned leads there.** -/
theorem Sent.waysOut_iff {newOwner : AccountIdOrCollectionNftTuple} {old new : AccountId}
    {nft nft' : NftInfo} (h : Sent o x newOwner old new nft nft' s s') (hs : WaysOut s)
    (hcols : s'.collections = s.collections) (hlock : ∀ z, z ≠ x → s'.lock z = s.lock z)
    (hx : s'.lock x = false) : WaysOut s' ↔ Harmless s x new := by
  have hfixed : ∀ z, z ≠ x → (Fixed s' z ↔ Fixed s z) := fun z hz =>
    fixed_congr (hlock z hz) (by rw [h.nfts, StorageMap.insert_of_ne hz])
  have hself : ¬ Fixed s' x := fun hfix => hfix.held (h.unheld hx)
  -- only edges to `x` are cut
  have hcut : ∀ a b, Lists s a b → b ≠ x → Lists s' a b := fun a b hb hbx =>
    (h.mem_children a b).2 (.inr ⟨hb, fun hbx' => hbx hbx'.1⟩)
  constructor
  · intro hs' p hp z hz hzp y hxy
    by_cases hzx : Below s z x
    · exact hs z hz y (hzx.trans hxy)
    · have hne : z ≠ x := by
        rintro rfl
        exact hzx .refl
      have hzp' : Below s' z p := reaches_of_cut hcut (.inr hzx) hzp
      have hput : Lists s' p x := (h.mem_children p x).2 (.inl ⟨rfl, hp⟩)
      have hxy' : Below s' x y := reaches_of_cut hcut (.inl rfl) hxy
      rw [← hcols]
      exact hs' z ((hfixed z hne).2 hz) y ((hzp'.tail hput).trans hxy')
  · intro hharmless z hz y hzy
    have hzx : z ≠ x := by
      rintro rfl
      exact hself hz
    have hz₀ : Fixed s z := (hfixed z hzx).1 hz
    rw [hcols]
    cases hp : decodeNftAccountId new with
    | none =>
        refine hs z hz₀ y (hzy.mono fun a b hb => ?_)
        rcases (h.mem_children a b).1 hb with ⟨-, ha⟩ | ⟨hb, -⟩
        · cases hp.symm.trans ha
        · exact hb
    | some p =>
        have hedge : ∀ a b, Lists s' a b → Lists s a b ∨ a = p ∧ b = x := by
          intro a b hb
          rcases (h.mem_children a b).1 hb with ⟨rfl, ha⟩ | ⟨hb, -⟩
          · exact .inr ⟨Option.some.inj (ha.symm.trans hp), rfl⟩
          · exact .inl hb
        rcases reaches_of_put hedge hzy with hzy | ⟨hzp, hxy⟩
        · exact hs z hz₀ y hzy
        · exact hharmless p hp z hz₀ hzp y hxy

/-! ## The index -/

/-- At most one entry has been put into the index, of an NFT that is there
under the one that owns it. -/
def PutsOne (s s' : State W) : Prop :=
  (∀ a, s'.children a ⊆ s.children a) ∨
    ∃ x p, (s'.nfts x).isSome = true ∧ s'.parent x = some p ∧
      ∀ a b, b ∈ s'.children a → b ∈ s.children a ∨ b = x ∧ a = p

theorem PutsOne.of_eq (h : s'.children = s.children) : PutsOne s s' := .inl fun a => by rw [h]

theorem Sent.putsOne {newOwner : AccountIdOrCollectionNftTuple} {old new : AccountId}
    {nft nft' : NftInfo} (h : Sent o x newOwner old new nft nft' s s') : PutsOne s s' := by
  cases hp : decodeNftAccountId new with
  | none =>
      refine .inl fun a b hb => ?_
      rcases (h.mem_children a b).1 hb with ⟨-, ha⟩ | ⟨hb, -⟩
      · cases hp.symm.trans ha
      · exact hb
  | some p =>
      have howner : s'.owner x = some new := by rw [h.owner, Function.update_self]
      refine .inr ⟨x, p, by rw [h.nfts, StorageMap.insert_self]; rfl,
        (State.parent_of_owner howner).trans hp, fun a b hb => ?_⟩
      rcases (h.mem_children a b).1 hb with ⟨rfl, ha⟩ | ⟨hb, -⟩
      · exact .inr ⟨rfl, Option.some.inj (ha.symm.trans hp)⟩
      · exact .inl hb

theorem Destroyed.putsOne {q : Option NftKey} (h : Destroyed x q s s') : PutsOne s s' :=
  .inl fun a b hb => ((h.mem_children a b).1 hb).1

/-- **A step puts one entry into the index at most.** -/
theorem Outcome.putsOne (h : Outcome s s' act) : PutsOne s s' := by
  cases h with
  | silent _ h => exact .of_eq h.children
  | noted _ h => exact .of_eq h.children
  | mintNft _ _ h => exact .of_eq h.children
  | mintNftDirectlyToNft _ _ _ h => exact .of_eq h.children
  | send h => exact h.putsOne
  | acceptNft h => exact .of_eq h.children
  | burnNft _ h => exact h.putsOne
  | rejectNft _ _ h => exact h.putsOne
  | unequip h => exact .of_eq h.children
  | equip h => exact .of_eq h.children
  | list _ _ _ h => exact .of_eq h.children
  | unlist _ h => exact .of_eq h.children
  | buy _ _ _ h => exact h.putsOne
  | acceptOffer _ h => exact h.putsOne

/-- Nothing is listed under an NFT that has not been issued. -/
def Trails (s : State W) : Prop := ∀ p : NftKey, s.nextNftId p.1 ≤ p.2 → s.children p = ∅

theorem trails_genesis (h : Genesis s) : Trails s := by
  obtain ⟨w, -, -, rfl⟩ := h
  exact fun _ _ => rfl

/-- Nor under one that is minted next, as long as what owns an NFT is
there. -/
theorem trails_step (hsound : Sound s') (hs : Trails s) (h : Outcome s s' act)
    (hlive : ∀ x p, (s'.nfts x).isSome = true → s'.parent x = some p → (s'.nfts p).isSome = true) :
    Trails s' := by
  intro q hq
  have hnone : s.children q = ∅ := hs q (h.issued hq)
  refine Finset.eq_empty_of_forall_notMem fun b hb => ?_
  rcases h.putsOne with hsub | ⟨x, p, hx, hp, hput⟩
  · simpa [hnone] using hsub q hb
  · rcases hput q b hb with hb | ⟨-, rfl⟩
    · simp [hnone] at hb
    · have habsent := (hsound.absent q hq).nfts
      simpa [habsent] using hlive x q hx hp

/-- **A step lengthens the index by one entry at most.** -/
theorem Outcome.entries_ncard_le (h : Outcome s s' act) :
    s'.entries.ncard ≤ s.entries.ncard + 1 := by
  rcases h.putsOne with hsub | ⟨x, p, -, -, hput⟩
  · exact (entries_ncard_mono hsub).trans (Nat.le_succ _)
  · have hsub : s'.entries ⊆ insert (p, x) s.entries := by
      rintro ⟨a, b⟩ hb
      rcases hput a b hb with hb | ⟨rfl, rfl⟩
      · exact .inr hb
      · exact .inl rfl
    exact (Set.ncard_le_ncard hsub (Set.toFinite _)).trans (Set.ncard_insert_le _ _)

/-- And so a run by as many as it has steps. -/
theorem entries_ncard_le_length {h : List (State W × Act W)} (hr : IsRun h s) :
    s.entries.ncard ≤ h.length := by
  induction hr with
  | start h0 =>
      obtain ⟨w, -, -, rfl⟩ := h0
      simp [State.entries, genesis]
  | step _ hs ih => exact hs.outcome.entries_ncard_le.trans (Nat.succ_le_succ ih)

/-- **A run of less than `2 ^ 32 - 1` steps is roomy** in every state. -/
theorem roomy_of_length {h : List (State W × Act W)} (hr : IsRun h s)
    (hlen : h.length < 4294967295) : Run.Throughout Roomy h s := by
  have hlast : Roomy s := (entries_ncard_le_length hr).trans_lt hlen
  induction hr with
  | start => exact ⟨hlast, by simp⟩
  | step hr hs ih =>
      have hlen' := (Nat.lt_succ_self _).trans hlen
      obtain ⟨hlast', hall⟩ := ih hlen' ((entries_ncard_le_length hr).trans_lt hlen')
      exact ⟨hlast, List.forall_mem_cons.2 ⟨hlast', hall⟩⟩

/-! ## Every step -/

/-- What is minted leads nowhere. -/
theorem Minted.waysOut {n : NftId} {c : CollectionId} {nft : NftInfo}
    (h : Minted (c, n) a nft s s') (hreg : Registered s s' act) (htrails : Trails s)
    (hact : act.razes = none) (hmint : act.mintsInto = some c) (hs : WaysOut s) : WaysOut s' := by
  have hcols := fun c => hreg.isSome_collections (c := c) hact
  refine hs.of_le (fun a => by rw [h.children]) hcols fun z hz => ?_
  by_cases hzx : z = (c, n)
  · have hnone : s'.children z = ∅ := by
      rw [h.children, hzx]
      exact htrails (c, n) (h.next ▸ UInt32.le_refl _)
    obtain ⟨col, hcol, -⟩ := (hreg.counting hmint).collections
    refine .inr fun y hy => ?_
    rw [eq_of_below hnone hy, hzx]
    exact hcols c (by rw [hcol]; rfl)
  · have hnfts : s'.nfts z = s.nfts z := by rw [h.nfts, StorageMap.insert_of_ne hzx]
    exact .inl ((fixed_congr (by rw [h.lock]) hnfts).1 hz)

/-- What has been destroyed is not held back any more. -/
theorem Destroyed.waysOut {q : Option NftKey} (h : Destroyed x q s s') (hreg : Registered s s' act)
    (hact : act.razes = none) (hs : WaysOut s) : WaysOut s' := by
  refine hs.of_le (fun a b hb => ((h.mem_children a b).1 hb).1)
    (fun c => hreg.isSome_collections hact) fun z hz => .inl ?_
  have hbelow : ¬ Below s x z := by
    intro hb
    simpa [h.nfts_below z hb] using hz.there
  exact (fixed_congr (by rw [h.lock]) (h.nfts_else z hbelow)).1 hz

/-- **What moves nothing closes a way out only where it destroys a
collection one leads to.** -/
theorem Quiet.ways_iff (h : Quiet s s') (hreg : Registered s s' act) (hstill : act.still = true)
    (hs : WaysOut s) : WaysOut s' ↔ KeepsWays s act := by
  have hsub : ∀ a, s'.children a ⊆ s.children a := fun a => by rw [h.children]
  have hfixed : ∀ z, Fixed s' z ↔ Fixed s z := fun z =>
    fixed_congr (by rw [h.lock]) (by rw [h.nfts])
  cases hact : act.razes with
  | none =>
      refine iff_of_true ?_ (keepsWays_of_still hstill hact)
      exact hs.of_le hsub (fun c => hreg.isSome_collections hact) fun z hz => .inl ((hfixed z).1 hz)
  | some c =>
      obtain ⟨hcols, o, rfl⟩ := hreg.of_razes hact
      have hhoused : ∀ z, Housed s' z ↔ ∀ y, Below s z y → (s.collections y.1).isSome = true ∧
          y.1 ≠ c := by
        intro z
        have hlists : Lists s' = Lists s := by
          funext a b
          rw [Lists, Lists, h.children]
        refine forall_congr' fun y => ?_
        rw [Below, hlists, hcols]
        by_cases hy : y.1 = c <;> simp [hy]
      constructor
      · intro hs' z hz y hy
        exact ((hhoused z).1 (hs' z ((hfixed z).2 hz)) y hy).2
      · intro hkeeps z hz
        have hz' : Fixed s z := (hfixed z).1 hz
        exact (hhoused z).2 fun y hy => ⟨hs z hz' y hy, hkeeps z hz' y hy⟩

/-- What is accepted, unequipped or unlisted is held back no more than it
was. -/
theorem WaysOut.of_unheld (hs : WaysOut s) (hreg : Registered s s' act) (hact : act.razes = none)
    (hchildren : s'.children = s.children) (hnfts : ∀ z, s'.nfts z = none ↔ s.nfts z = none)
    (hunheld : ∀ z, Unheld s z → Unheld s' z) : WaysOut s' := by
  refine hs.of_le (fun a => by rw [hchildren]) (fun c => hreg.isSome_collections hact)
    fun z hz => .inl (hz.of_unheld (fun hthere => ?_) (hunheld z))
  rw [Option.isSome_iff_ne_none, ne_eq] at hthere ⊢
  rwa [← hnfts]

theorem Accepted.unheld {newOwner : AccountIdOrCollectionNftTuple} {new : AccountId}
    {nft : NftInfo} (h : Accepted o x newOwner new nft s s') (hz : Unheld s z) :
    Unheld s' z := by
  refine ⟨h.lock ▸ hz.unlocked, ?_⟩
  by_cases hzx : z = x
  · obtain ⟨nft', hnft', htr⟩ := hz.record
    obtain rfl : nft' = nft := Option.some.inj (hnft'.symm.trans (hzx ▸ h.nfts_eq))
    exact ⟨{ nft' with pending := false }, by rw [h.nfts, hzx, StorageMap.insert_self], htr⟩
  · rw [h.nfts, StorageMap.insert_of_ne hzx]
    exact hz.record

theorem Wired.unheld {item : NftKey} {k : NftKey × BaseId × SlotId}
    (h : Wired item k none s s') (hz : Unheld s z) : Unheld s' z := by
  refine ⟨h.lock ▸ hz.unlocked, ?_⟩
  obtain ⟨nft, hnft, htr, heq⟩ := hz.record
  rw [h.nfts, StorageMap.mutate_apply]
  split
  · next hzi => exact ⟨{ nft with equipped := false }, by rw [← hzi, hnft]; rfl, htr, rfl⟩
  · exact ⟨nft, hnft, htr, heq⟩

/-- What is equipped is held back, and nothing else is that was not. -/
theorem Wired.fixed_iff {item : NftKey} {k : NftKey × BaseId × SlotId} {r : ResourceId}
    (h : Wired item k (some r) s s') (hthere : (s.nfts item).isSome = true) :
    Fixed s' z ↔ Fixed s z ∨ z = item := by
  by_cases hz : z = item
  · subst hz
    refine iff_of_true ⟨?_, fun hmov => ?_⟩ (.inr rfl)
    · rw [h.nfts, StorageMap.mutate_self, Option.isSome_map]
      exact hthere
    · obtain ⟨nft, hnft, -, heq⟩ := hmov.record
      rw [h.nfts, StorageMap.mutate_self] at hnft
      obtain ⟨nft', -, rfl⟩ := Option.map_eq_some_iff.1 hnft
      cases heq
  · have hkept : Fixed s' z ↔ Fixed s z :=
      fixed_congr (by rw [h.lock]) (by rw [h.nfts, StorageMap.mutate_of_ne hz])
    exact hkept.trans (or_iff_left hz).symm

/-- What is listed is, and nothing else. -/
theorem Posted.fixed_iff {info : Option ListInfo} (h : Posted x true info s s')
    (hthere : (s.nfts x).isSome = true) : Fixed s' z ↔ Fixed s z ∨ z = x := by
  by_cases hz : z = x
  · subst hz
    refine iff_of_true ⟨h.nfts ▸ hthere, fun hmov => ?_⟩ (.inr rfl)
    have hlock := hmov.unlocked
    rw [h.lock, Function.update_self] at hlock
    cases hlock
  · have hkept : Fixed s' z ↔ Fixed s z :=
      fixed_congr (by rw [h.lock, Function.update_of_ne hz]) (by rw [h.nfts])
    exact hkept.trans (or_iff_left hz).symm

theorem Posted.unheld {info : Option ListInfo} (h : Posted x false info s s')
    (hz : Unheld s z) : Unheld s' z := by
  refine ⟨?_, h.nfts ▸ hz.record⟩
  rw [h.lock]
  by_cases hzx : z = x
  · rw [hzx, Function.update_self]
  · rw [Function.update_of_ne hzx, hz.unlocked]

/-- **One step leaves all ways out open exactly if it meets the
condition.** -/
theorem ways_step (htrails : Trails s) (hs : WaysOut s) (hstep : Step s act s') :
    WaysOut s' ↔ KeepsWays s act := by
  have hreg := hstep.registered
  cases hstep.outcome with
  | silent hstill h => exact h.ways_iff hreg hstill hs
  | noted hstill h => exact h.ways_iff hreg hstill hs
  | mintNft _ _ h => exact iff_of_true (h.waysOut hreg htrails rfl rfl hs) trivial
  | mintNftDirectlyToNft _ _ _ h => exact iff_of_true (h.waysOut hreg htrails rfl rfl hs) trivial
  | @send o x newOwner old new nft nft' h hlock hlist =>
      rw [h.waysOut_iff hs (hstep.sameRegister rfl).collections (fun z _ => by rw [hlist.lock])
        (hlist.lock ▸ hlock), ← h.target.account]
      rfl
  | acceptNft h =>
      have hpresent : SamePresence s s' := .of_insert h.nfts_eq h.nfts h.nextNftId
      exact iff_of_true (hs.of_unheld hreg rfl h.children hpresent.nfts fun z hz => h.unheld hz)
        trivial
  | burnNft _ h => exact iff_of_true (h.waysOut hreg rfl hs) trivial
  | rejectNft _ _ h => exact iff_of_true (h.waysOut hreg rfl hs) trivial
  | unequip h hfilled =>
      refine iff_of_true (hs.of_unheld hreg rfl h.children (fun z => ?_) fun z hz => h.unheld hz)
        fun hempty => ?_
      · rw [h.nfts, StorageMap.mutate_eq_none_iff]
      · simp [hempty] at hfilled
  | equip h hempty hnft =>
      have hfixed := fun z => h.fixed_iff (z := z) (by rw [hnft]; rfl)
      rw [waysOut_iff_of_fixed hs h.children (hstep.sameRegister rfl).collections hfixed]
      exact ⟨fun hx _ => hx, fun hx => hx hempty⟩
  | list _ _ hnft h =>
      have hfixed := fun z => h.fixed_iff (z := z) (by rw [hnft]; rfl)
      exact waysOut_iff_of_fixed hs h.children (hstep.sameRegister rfl).collections hfixed
  | unlist _ h =>
      exact iff_of_true (hs.of_unheld hreg rfl h.children (fun z => by rw [h.nfts])
        fun z hz => h.unheld hz) trivial
  | buy _ _ _ h hlock =>
      exact h.waysOut_iff hs (hstep.sameRegister rfl).collections
        (fun z hz => by rw [hlock, Function.update_of_ne hz]) (by rw [hlock, Function.update_self])
  | acceptOffer hoffer h _ hlock =>
      rw [h.waysOut_iff hs (hstep.sameRegister rfl).collections
        (fun z hz => by rw [hlock, Function.update_of_ne hz]) (by rw [hlock, Function.update_self])]
      simp [KeepsWays, hoffer]

end Rmrk
