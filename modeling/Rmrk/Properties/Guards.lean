import Rmrk.Helpers.Issued
import Rmrk.Mock.Replay
/-!
# The guards of a transfer

An NFT changes hands by `send`, `accept_nft`, `buy` and `accept_offer`.
Three guards stand in the way: it must be transferable, not equipped and,
unless it is sold, not locked. `accept_nft` leaves the first two to
`send`, and so moves what was never sent.
-/

namespace Rmrk

variable {W : Type} [Config W] {s s' : State W} {act : Act W} {h : List (State W × Act W)}
variable {x : NftKey} {a b o : AccountId}

/-! ## The property -/

/-- A sale, which takes the lock off itself. -/
def Act.isSale : Act W → Prop
  | .signed _ (.buy ..) | .signed _ (.acceptOffer ..) => True
  | _ => False

/-- An NFT that may be moved. -/
def Movable (s : State W) (x : NftKey) : Prop :=
  ∃ nft, s.nfts x = some nft ∧ nft.transferable = true ∧ nft.equipped = false

/-- **What changes hands has passed the guards.** -/
def Guarded (s : State W) (act : Act W) (s' : State W) : Prop :=
  ∀ x a b, s.owner x = some a → s'.owner x = some b → a ≠ b →
    Movable s x ∧ (s.lock x = false ∨ act.isSale)

/-- **What is accepted for another owner may be moved.** -/
def AcceptsMovable (s : State W) : Act W → Prop
  | .signed _ (.acceptNft x newOwner) => s.owner x ≠ some newOwner.account → Movable s x
  | _ => True

theorem acceptsMovable_of_still (h : act.still = true) : AcceptsMovable s act := by
  cases act with
  | between => trivial
  | signed o c => cases c <;> trivial

/-! ## One step -/

theorem guarded_of_owner (howner : s'.owner = s.owner) : Guarded s act s' := by
  intro x a b ha hb hab
  rw [howner, ha, Option.some.injEq] at hb
  exact absurd hb hab

/-- A write of one owner is guarded if it is there. -/
theorem guarded_of_update {c : Option AccountId} (howner : s'.owner = Function.update s.owner x c)
    (hx : ∀ a b, s.owner x = some a → c = some b → a ≠ b →
      Movable s x ∧ (s.lock x = false ∨ act.isSale)) : Guarded s act s' := by
  intro z a b ha hb hab
  by_cases hz : z = x
  · subst hz
    rw [howner, Function.update_self] at hb
    exact hx a b ha hb hab
  · rw [howner, Function.update_of_ne hz, ha, Option.some.injEq] at hb
    exact absurd hb hab

theorem Minted.guarded {nft : NftInfo} (hs : Sound s) (h : Minted x a nft s s') :
    Guarded s act s' :=
  guarded_of_update h.owner fun c d hc => by simp [(h.absent hs).owner] at hc

theorem Sent.movable {old new : AccountId} {newOwner : AccountIdOrCollectionNftTuple}
    {nft nft' : NftInfo} (h : Sent o x newOwner old new nft nft' s s') : Movable s x :=
  ⟨nft, h.nfts_eq, h.transferable, h.equipped⟩

/-- **One step is guarded exactly if it meets the condition.** -/
theorem guarded_step (hs : Sound s) (hstep : Step s act s') :
    Guarded s act s' ↔ AcceptsMovable s act := by
  cases hstep.outcome with
  | silent hstill h =>
      exact iff_of_true (guarded_of_owner h.owner) (acceptsMovable_of_still hstill)
  | noted hstill h =>
      exact iff_of_true (guarded_of_owner h.owner)
        (acceptsMovable_of_still hstill)
  | mintNft _ _ h => exact iff_of_true (h.guarded hs) trivial
  | mintNftDirectlyToNft _ _ _ h => exact iff_of_true (h.guarded hs) trivial
  | send h hlock =>
      exact iff_of_true (guarded_of_update h.owner fun _ _ _ _ _ => ⟨h.movable, .inl hlock⟩) trivial
  | @acceptNft o x newOwner new nft h =>
      obtain ⟨old, hold⟩ := Option.isSome_iff_exists.1 h.root.owner_isSome
      have hnew := h.target.account
      change _ ↔ (s.owner x ≠ some newOwner.account → Movable s x)
      rw [hold, hnew, ne_eq, Option.some.injEq]
      constructor
      · intro hg hne
        exact (hg x old new hold (by simp [h.owner]) hne).1
      · intro hc
        refine guarded_of_update h.owner fun c d hc' hd hcd => ?_
        obtain rfl := Option.some.inj (hc'.symm.trans hold)
        obtain rfl := Option.some.inj hd
        exact ⟨hc hcd, .inl h.unlocked⟩
  | burnNft _ _ howner =>
      exact iff_of_true (guarded_of_update howner fun _ _ _ hb => by simp at hb) trivial
  | rejectNft _ _ _ howner => exact iff_of_true (guarded_of_owner howner) trivial
  | unequip h => exact iff_of_true (guarded_of_owner h.owner) trivial
  | equip h => exact iff_of_true (guarded_of_owner h.owner) trivial
  | list _ _ _ h => exact iff_of_true (guarded_of_owner h.owner) trivial
  | unlist _ h => exact iff_of_true (guarded_of_owner h.owner) trivial
  | buy _ _ _ h =>
      exact iff_of_true (guarded_of_update h.owner fun _ _ _ _ _ => ⟨h.movable, .inr trivial⟩)
        trivial
  | acceptOffer _ h =>
      exact iff_of_true (guarded_of_update h.owner fun _ _ _ _ _ => ⟨h.movable, .inr trivial⟩)
        trivial

/-! ## Soulbound NFTs -/

/-- An NFT that is not transferable is still `a`'s, or has gone for
good. -/
structure Soulbound (x : NftKey) (a : Option AccountId) (s : State W) : Prop where
  issued : ¬ s.nextNftId x.1 ≤ x.2
  owner : ∀ nft, s.nfts x = some nft → nft.transferable = false ∧ s.owner x = a

/-- What a step leaves of it. -/
theorem Soulbound.step {a : Option AccountId} (hx : Soulbound x a s) (hc : AcceptsMovable s act)
    (hstep : Step s act s') : Soulbound x a s' := by
  have hissued : ¬ s'.nextNftId x.1 ≤ x.2 := fun hle => hx.issued (hstep.outcome.issued hle)
  -- a write of the record and the owner of another NFT is not one of `x`'s
  have hput : ∀ {z : NftKey} {c : AccountId} {nft : NftInfo}, x ≠ z →
      s'.owner = Function.update s.owner z (some c) → s'.nfts = s.nfts.insert z nft →
        Soulbound x a s' := fun hz ho hn => ⟨hissued, fun nft hnft => by
    rw [hn, StorageMap.insert_of_ne hz] at hnft
    rw [ho, Function.update_of_ne hz]
    exact hx.owner nft hnft⟩
  have hkeep : s'.owner = s.owner → s'.nfts = s.nfts → Soulbound x a s' := fun ho hn =>
    ⟨hissued, fun nft hnft => by rw [ho]; exact hx.owner nft (hn ▸ hnft)⟩
  have hmint : ∀ {z : NftKey} {c : AccountId} {nft : NftInfo}, Minted z c nft s s' →
      Soulbound x a s' := fun h => hput (fun hz => hx.issued (by
    rw [hz, h.next]; exact UInt32.le_refl _)) h.owner h.nfts
  have hsent : ∀ {o : AccountId} {z : NftKey} {newOwner : AccountIdOrCollectionNftTuple}
      {old new : AccountId} {nft nft' : NftInfo}, Sent o z newOwner old new nft nft' s s' →
        Soulbound x a s' := fun h => hput (fun hz => by
    have := (hx.owner _ (hz ▸ h.nfts_eq)).1
    simp [h.transferable] at this) h.owner h.nfts
  have hgone : ∀ {z : NftKey} {q : Option NftKey}, Destroyed z q s s' →
      (x ≠ z → s'.owner x = s.owner x) → Soulbound x a s' := fun {z q} h ho =>
    ⟨hissued, fun nft hnft => by
      by_cases hb : Below s z x
      · simp [h.nfts_below x hb] at hnft
      · rw [ho (by rintro rfl; exact hb .refl)]
        exact hx.owner nft (h.nfts_else x hb ▸ hnft)⟩
  have hwired : ∀ {z : NftKey} {k : NftKey × BaseId × SlotId} {r : Option ResourceId},
      Wired z k r s s' → Soulbound x a s' := fun {z k r} h => ⟨hissued, fun nft hnft => by
    rw [h.owner]
    rw [h.nfts, StorageMap.mutate_apply] at hnft
    split at hnft
    · next hz =>
        obtain ⟨nft₀, hnft₀, rfl⟩ := Option.map_eq_some_iff.1 hnft
        exact hx.owner nft₀ (hz ▸ hnft₀)
    · exact hx.owner nft hnft⟩
  cases hstep.outcome with
  | silent _ h => exact hkeep h.owner h.nfts
  | noted _ h => exact hkeep h.owner h.nfts
  | mintNft _ _ h => exact hmint h
  | mintNftDirectlyToNft _ _ _ h => exact hmint h
  | send h => exact hsent h
  | @acceptNft o z newOwner new nft h =>
      by_cases hz : x = z
      · subst hz
        obtain ⟨htr, howner⟩ := hx.owner nft h.nfts_eq
        have hsame : s.owner x = some newOwner.account := by
          by_contra hne
          obtain ⟨nft', hnft', htr', -⟩ := hc hne
          rw [h.nfts_eq, Option.some.injEq] at hnft'
          simp [← hnft', htr] at htr'
        refine ⟨hissued, fun nft' hnft' => ?_⟩
        rw [h.nfts, StorageMap.insert_self, Option.some.injEq] at hnft'
        rw [h.owner, Function.update_self, ← howner, hsame, h.target.account]
        exact ⟨hnft' ▸ htr, rfl⟩
      · exact hput hz h.owner h.nfts
  | burnNft _ h howner => exact hgone h fun hz => by rw [howner, Function.update_of_ne hz]
  | rejectNft _ _ h howner => exact hgone h fun _ => by rw [howner]
  | unequip h => exact hwired h
  | equip h => exact hwired h
  | list _ _ _ h => exact hkeep h.owner h.nfts
  | unlist _ h => exact hkeep h.owner h.nfts
  | buy _ _ _ h => exact hsent h
  | acceptOffer _ h => exact hsent h

/-- **A soulbound NFT stays where it is** in whatever goes on from there
under the condition. -/
theorem soulbound_run {a : Option AccountId} (hx : Soulbound x a s)
    (hr : Run (· = s) Step h s') (hc : ∀ e ∈ h, AcceptsMovable e.1 e.2) : Soulbound x a s' := by
  refine Run.invariant_of_meets (C := fun _ => AcceptsMovable) (P := fun _ => Soulbound x a)
    ?_ ?_ hr (Run.meets_iff.2 hc)
  · rintro _ rfl
    exact hx
  · exact fun _ _ _ _ _ hP hC hstep => hP.step hC hstep

/-! ## Every run -/

/-- **The guards of a transfer.** In a reachable state, a step moves only
what it may exactly if what it accepts for another owner may be moved; and
in a run that goes on from there and whose steps all meet this, what is
not transferable has the same owner for as long as it exists. -/
theorem guarded_iff (hr : Reachable s) :
    (∀ act s', Step s act s' → (Guarded s act s' ↔ AcceptsMovable s act)) ∧
      ∀ h s', Run (· = s) Step h s' → (∀ e ∈ h, AcceptsMovable e.1 e.2) →
        ∀ x nft, s.nfts x = some nft → nft.transferable = false → (s'.nfts x).isSome = true →
          s'.owner x = s.owner x := by
  refine ⟨fun act s' => guarded_step (Reachable.sound hr), ?_⟩
  intro h s' hrun hc x nft hnft htr hx
  have hsoul : Soulbound x (s.owner x) s := by
    refine ⟨fun hle => ?_, fun nft' hnft' => ?_⟩
    · simp [((Reachable.sound hr).absent x hle).nfts] at hnft
    · rw [hnft, Option.some.injEq] at hnft'
      exact ⟨hnft' ▸ htr, rfl⟩
  obtain ⟨nft', hnft'⟩ := Option.isSome_iff_exists.1 hx
  exact ((soulbound_run hsoul hrun hc).owner nft' hnft').2

namespace Mock

/-- Alice mints to Bob what is not transferable. -/
def soulbound : List Extrinsic :=
  [(alice, .mintNft (some bob) 0 none none [] false none), (alice, newCollection)]

/-- **Bob accepts it for Charlie.** -/
theorem not_guarded_of_reachable :
    ¬ ∀ (s s' : State Storage) (act : Act Storage), Reachable s → Step s act s' →
      Guarded s act s' := by
  intro hall
  have haccept : returns (bob, .acceptNft (0, 0) (.accountId charlie)) (replay soulbound) =
      true := by
    decide +kernel
  have hg := hall _ _ _ (reachable_replay (by decide +kernel)) (step_apply haccept)
  have hbob : (replay soulbound).owner (0, 0) = some bob := by decide +kernel
  have hcharlie : (apply (bob, .acceptNft (0, 0) (.accountId charlie)) (replay soulbound)).owner
      (0, 0) = some charlie := by decide +kernel
  have htr : ((replay soulbound).nfts (0, 0)).map NftInfo.transferable = some false := by
    decide +kernel
  obtain ⟨⟨nft, hnft, htr', -⟩, -⟩ := hg (0, 0) bob charlie hbob hcharlie (by decide +kernel)
  simp [hnft, htr'] at htr

/-- He accepts it for himself, and it stays his. -/
theorem soulbound_stays :
    (apply (bob, .acceptNft (0, 0) (.accountId bob)) (replay soulbound)).owner (0, 0) =
      some bob := by
  have haccept : returns (bob, .acceptNft (0, 0) (.accountId bob)) (replay soulbound) = true := by
    decide +kernel
  have hbob : (replay soulbound).owner (0, 0) = some bob := by decide +kernel
  have htr : ((replay soulbound).nfts (0, 0)).map NftInfo.transferable = some false := by
    decide +kernel
  obtain ⟨nft, hnft, htr⟩ := Option.map_eq_some_iff.1 htr
  rw [← hbob]
  refine (guarded_iff (reachable_replay (by decide +kernel))).2 _ _
    (.step (.start rfl) (step_apply haccept)) ?_ (0, 0) nft hnft htr (by decide +kernel)
  simp only [List.forall_mem_cons, List.not_mem_nil, false_imp_iff, implies_true, and_true]
  exact fun hne => absurd hbob hne

end Mock

end Rmrk
