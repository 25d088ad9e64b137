import Rmrk.Helpers.Steps
import Rmrk.Properties.Escrow
/-!
# Taking an offer back

`withdraw_offer` looks the owner of the token up before it looks at who
signs. A token that has been burned has no owner, and the offers on it
stay where they are: whoever made one cannot come back for it. Nothing but
a burn takes an owner away.
-/

namespace Rmrk

open Effect

variable {W : Type} [Config W] {s s' : State W} {act : Act W} {h : List (State W × Act W)}
variable {x : NftKey} {k : AccountId} {offer : Offer}

/-! ## The property -/

/-- **`k` has taken its offer back**: the amount is free again, and the
other offers, the listings and the other balances are as they were. -/
structure Refunded (x : NftKey) (k : AccountId) (offer : Offer) (s s' : State W) : Prop where
  offers : s'.offers = s.offers.remove (x, k)
  listedNfts : s'.listedNfts = s.listedNfts
  free : Currency.free s'.ext k = Currency.free s.ext k + offer.amount
  reserved : Currency.reserved s'.ext k + offer.amount = Currency.reserved s.ext k
  others : ∀ a, a ≠ k → Currency.free s'.ext a = Currency.free s.ext a ∧
    Currency.reserved s'.ext a = Currency.reserved s.ext a

/-- Whoever has made an offer can take it back. -/
def Refundable (s : State W) : Prop :=
  ∀ x k offer, s.offers (x, k) = some offer →
    ∃ s', dispatch k (.withdrawOffer x) s = .ok () s' ∧ Refunded x k offer s s'

/-- A burn is of a token with no offers on it. -/
def SparesOffers (s : State W) : Act W → Prop
  | .signed _ (.burnNft x _) => ∀ k, s.offers (x, k) = none
  | _ => True

/-! ## What it comes down to -/

/-- The token of each offer has an owner. -/
def Backed (s : State W) : Prop :=
  ∀ x k offer, s.offers (x, k) = some offer → (s.owner x).isSome = true

variable [Deposits W]

/-- An amount that is all there is released to its maker alone. -/
theorem refunded_of_withdrawn (hs : Solvent s) (hoffer : s.offers (x, k) = some offer)
    (h : s' = { s with
      ext := Currency.unreserve s.ext offer.maker offer.amount
      offers := s.offers.remove (x, k) }) : Refunded x k offer s s' := by
  have hmaker := hs.maker x k offer hoffer
  obtain ⟨hfree, hreserved⟩ := hs.releasesAll hoffer
  rw [hmaker] at h hfree hreserved
  subst h
  refine ⟨rfl, rfl, hfree, hreserved, fun a ha => ⟨?_, ?_⟩⟩
  · exact (congrFun Currency.free_unreserve a).trans (Function.update_of_ne ha _ _)
  · exact (congrFun Currency.reserved_unreserve a).trans (Function.update_of_ne ha _ _)

/-- **An offer can be taken back if and only if its token has an
owner.** -/
theorem refundable_iff_backed (hs : Solvent s) : Refundable s ↔ Backed s := by
  constructor
  · intro h x k offer hoffer
    obtain ⟨s', hcall, -⟩ := h x k offer hoffer
    obtain ⟨offer', owner, -, howner, -⟩ := Market.withdrawOffer_iff.1 hcall
    simp [howner]
  · intro h x k offer hoffer
    obtain ⟨owner, howner⟩ := Option.isSome_iff_exists.1 (h x k offer hoffer)
    have hmaker := hs.maker x k offer hoffer
    exact ⟨_, Market.withdrawOffer_iff.2 ⟨offer, owner, hoffer, howner, .inr hmaker.symm, rfl⟩,
      refunded_of_withdrawn hs hoffer rfl⟩

/-! ## One step -/

omit [Deposits W] in
/-- Only a burn takes an owner away, and only that of what it burns. -/
theorem Step.owner_isSome (hstep : Step s act s') (hx : (s.owner x).isSome = true) :
    (s'.owner x).isSome = true ∨ ∃ o k, act = .signed o (.burnNft x k) := by
  have hput : ∀ {y : NftKey} {a : AccountId},
      s'.owner = Function.update s.owner y (some a) → (s'.owner x).isSome = true :=
    fun {y a} ho => by
    rw [ho]
    by_cases hxy : x = y
    · subst hxy; simp
    · rw [Function.update_of_ne hxy]
      exact hx
  cases hstep.outcome with
  | silent _ h => exact .inl (h.owner ▸ hx)
  | noted _ h => exact .inl (h.owner ▸ hx)
  | mintNft _ _ h => exact .inl (hput h.owner)
  | mintNftDirectlyToNft _ _ _ h => exact .inl (hput h.owner)
  | send h => exact .inl (hput h.owner)
  | acceptNft h => exact .inl (hput h.owner)
  | @burnNft o y k _ h howner =>
      by_cases hxy : x = y
      · exact .inr ⟨o, k, by rw [hxy]⟩
      · rw [howner, Function.update_of_ne hxy]
        exact .inl hx
  | rejectNft _ _ h howner => exact .inl (howner ▸ hx)
  | unequip h => exact .inl (h.owner ▸ hx)
  | equip h => exact .inl (h.owner ▸ hx)
  | list _ _ _ h => exact .inl (h.owner ▸ hx)
  | unlist _ h => exact .inl (h.owner ▸ hx)
  | buy _ _ _ h => exact .inl (hput h.owner)
  | acceptOffer _ h => exact .inl (hput h.owner)

/-- A step puts no offer on a token without an owner. -/
theorem Step.offers (hstep : Step s act s') (hoffer : s'.offers (x, k) = some offer) :
    s.offers (x, k) = some offer ∨ (s.owner x).isSome = true := by
  have hremove : ∀ q, s'.offers = s.offers.remove q → s.offers (x, k) = some offer :=
    fun q hq => by
      rw [hq] at hoffer
      exact (StorageMap.remove_eq_some_iff.1 hoffer).2
  cases hstep.escrowed with
  | same h => exact .inl (h.offers ▸ hoffer)
  | @made o y v e w howner _ _ h =>
      subst h
      rcases StorageMap.insert_eq_some_iff.1 hoffer with ⟨hx, -⟩ | ⟨-, hoffer⟩
      · obtain ⟨rfl, -⟩ := Prod.mk.inj hx
        exact .inr howner
      · exact .inl hoffer
  | withdrawn _ h => exact .inl (hremove _ (by rw [h]))
  | accepted _ hsold h => exact .inl (hremove _ (by rw [h, hsold.offers]))

/-- **A step leaves every offer backed if and only if it burns no token
with an offer on it.** -/
theorem backed_step (hs : Backed s) (hstep : Step s act s') : Backed s' ↔ SparesOffers s act := by
  constructor
  · intro hs'
    unfold SparesOffers
    split
    · next o x k =>
        intro a
        by_contra hsome
        obtain ⟨offer, hoffer⟩ := Option.ne_none_iff_exists'.1 hsome
        have hgone : s'.owner x = none := by
          cases hstep.outcome with
          | silent hact => exact nomatch (show false = true from hact)
          | noted hact => exact nomatch (show false = true from hact)
          | burnNft _ h howner => rw [howner, Function.update_self]
        have hoffers : s'.offers = s.offers := by
          cases hstep.escrowed with
          | same h => exact h.offers
        have := hs' x a offer (hoffers ▸ hoffer)
        simp [hgone] at this
    · trivial
  · intro hspares x k offer hoffer
    rcases hstep.offers hoffer with hold | howner
    · rcases hstep.owner_isSome (hs x k offer hold) with hx | ⟨o, n, rfl⟩
      · exact hx
      · rw [hspares k] at hold
        cases hold
    · rcases hstep.owner_isSome howner with hx | ⟨o, n, rfl⟩
      · exact hx
      · -- a burn makes no offer
        cases hstep.escrowed with
        | same h =>
            rw [h.offers, hspares k] at hoffer
            cases hoffer

/-! ## Every run -/

/-- **Offers can be taken back throughout a run if and only if no token is
burned with offers on it.** -/
theorem refundable_throughout_iff (hr : IsRun h s) :
    Run.Throughout Refundable h s ↔ ∀ e ∈ h, SparesOffers e.1 e.2 := by
  refine Run.throughout_iff (fun s h0 => ?_) (fun s act s' hr hs hstep => ?_) hr
  · obtain ⟨w, -, -, rfl⟩ := h0
    exact fun x k offer hoffer => by cases hoffer
  · have hsolvent := Reachable.solvent hr
    rw [refundable_iff_backed (hsolvent.step hstep)]
    exact backed_step ((refundable_iff_backed hsolvent).1 hs) hstep

namespace Mock

/-- Alice burns the NFT Bob has made an offer on. -/
def burnedUnderOffer : List Extrinsic :=
  [(alice, .burnNft (0, 0) 10), (bob, .makeOffer (0, 0) 50 none), (alice, mintTo alice),
    (alice, newCollection)]

/-- **Funds that do not come back**: Bob's offer is there, and he cannot
withdraw it. -/
theorem not_refundable_of_run : ¬ ∀ s : State Storage, Reachable s → Refundable s := by
  intro hall
  have hs := hall (replay burnedUnderOffer) (reachable_replay (by decide +kernel))
  have hoffer : (replay burnedUnderOffer).offers ((0, 0), bob) =
      some { maker := bob, amount := 50, expires := none } := by decide +kernel
  obtain ⟨s', hcall, -⟩ := hs (0, 0) bob _ hoffer
  have hfails : returns (bob, .withdrawOffer (0, 0)) (replay burnedUnderOffer) = false := by
    decide +kernel
  simp [returns, hcall] at hfails

/-- Bob makes an offer on one NFT of Alice's, and she burns another. -/
def burnedBesideOffer : List Extrinsic :=
  [(bob, .withdrawOffer (0, 1)), (alice, .burnNft (0, 0) 10), (bob, .makeOffer (0, 1) 50 none),
    (alice, mintTo alice), (alice, mintTo alice), (alice, newCollection)]

theorem refundable_burnedBesideOffer :
    Run.Throughout Refundable (history burnedBesideOffer) (replay burnedBesideOffer) := by
  refine (refundable_throughout_iff (isRun_replay (by decide +kernel))).2 ?_
  simp only [burnedBesideOffer, history, List.forall_mem_cons, List.not_mem_nil, false_imp_iff,
    implies_true, and_true]
  exact ⟨trivial, fun k => rfl, trivial, trivial, trivial, trivial⟩

end Mock

end Rmrk
