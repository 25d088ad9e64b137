import Rmrk.Properties.Protocol
import Rmrk.Properties.Settlement
/-!
# Where the money is

The reserve of an account is what others hold of it, what its offers come
to, and an amount that is the same throughout a run: no offer leaves
anything behind. And the market moves funds by sales only, each for a
price the seller has asked or the buyer has offered.
-/

namespace Rmrk

open Effect

variable {W : Type} [Config W] {s s' : State W} {act : Act W} {h : List (State W × Act W)}
variable {x : NftKey} {o a b : AccountId} {offer : Offer} {p : Balance}

/-! ## The reserves -/

section Reserves

variable [Deposits W] {slack : AccountId → ℕ}

/-- **The reserves add up** to the slack, what others hold and the
offers. -/
def Accounted (slack : AccountId → ℕ) (s : State W) : Prop :=
  ∀ a, slack a + s.outstanding a + Deposits.held s.ext a = Currency.reserved s.ext a

theorem Accounted.held_le (hs : Accounted slack s) (a : AccountId) :
    Deposits.held s.ext a ≤ Currency.reserved s.ext a := by
  rw [← hs a]
  exact Nat.le_add_left _ _

theorem Accounted.same (hs : Accounted slack s) (h : SameEscrow s s') : Accounted slack s' := by
  intro a
  have hheld := h.held hs.held_le a
  have hout : s'.outstanding a = s.outstanding a := by
    rw [State.outstanding, State.outstanding, h.offers]
  have hsum := hs a
  omega

/-- A new offer is in the reserve of its maker. -/
theorem Accounted.made {v : Balance} {e : Option BlockNumber} {w : W} (hs : Accounted slack s)
    (hnone : s.offers (x, o) = none) (hw : Currency.reserve s.ext o v = .ok w) :
    Accounted slack { s with
      ext := w
      offers := s.offers.insert (x, o) { maker := o, amount := v, expires := e } } := by
  intro a
  change _ + StorageMap.total (s.offers.insert _ _) _ + Deposits.held w a = Currency.reserved w a
  have hsum := hs a
  rw [State.outstanding] at hsum
  rw [StorageMap.total_insert hnone, Deposits.held_reserve hw, Currency.reserved_reserve hw]
  by_cases ha : a = o
  · subst ha
    rw [Function.update_self, Offer.of_maker rfl]
    change _ + (_ + v) + _ = _ + v
    rw [← hsum, ← Nat.add_assoc, Nat.add_right_comm]
  · rw [Function.update_of_ne ha, Offer.of_ne (Ne.symm ha), Nat.add_zero]
    exact hsum

/-- An offer that is taken out is no longer in the reserve. -/
theorem Accounted.release {k : AccountId} (hs : Accounted slack s)
    (hoffer : s.offers (x, k) = some offer) :
    Accounted slack { s with
      ext := Currency.unreserve s.ext offer.maker offer.amount
      offers := s.offers.remove (x, k) } := by
  intro a
  change _ + StorageMap.total (s.offers.remove _) _ +
    Deposits.held (Currency.unreserve _ _ _) a = Currency.reserved (Currency.unreserve _ _ _) a
  have hout := StorageMap.total_remove (f := fun offer' => offer'.of a) hoffer
  have hsum := hs a
  rw [State.outstanding] at hsum
  rw [Deposits.held_unreserve, Currency.reserved_unreserve]
  by_cases ha : a = offer.maker
  · rw [Offer.of_maker ha.symm] at hout
    rw [ha, Function.update_self, ← ha]
    omega
  · rw [Offer.of_ne (Ne.symm ha)] at hout
    rw [Function.update_of_ne ha]
    omega

/-- **A step keeps the slack.** -/
theorem Accounted.step (hs : Accounted slack s) (hstep : Step s act s') : Accounted slack s' := by
  cases hstep.escrowed with
  | same h => exact hs.same h
  | made howner hnone hw h => exact h ▸ hs.made hnone hw
  | withdrawn hoffer h => exact h ▸ hs.release hoffer
  | accepted hoffer hsold h =>
      refine (hs.release hoffer).same ?_
      subst h
      exact ⟨by rw [hsold.offers], hsold.held⟩

/-- **No reserve is left behind.** Throughout a run the reserve of each
account is what it was at the start beyond what others held, what they
hold now, and the amounts of the offers it has open, to the unit. -/
theorem reserves_accounted (hr : IsRun h s) : ∃ slack, Run.Throughout (Accounted slack) h s := by
  refine hr.exists_throughout (fun s h0 => ?_) fun _ _ _ _ _ hs hstep => hs.step hstep
  obtain ⟨w, howner, hcols, rfl⟩ := h0
  refine ⟨fun a => Currency.reserved w a - Deposits.held w a, fun a => ?_⟩
  have hzero : (genesis w).outstanding a = 0 := StorageMap.total_empty
  have hheld := Deposits.held_genesis howner hcols a
  rw [hzero]
  exact Nat.sub_add_cancel hheld

end Reserves

namespace Mock

/-- Bob has made two offers, and withdrawn one. -/
theorem accounted_offeredTwice : ∃ slack,
    Run.Throughout (Accounted slack) (history offeredTwice) (replay offeredTwice) :=
  reserves_accounted (isRun_replay (by decide +kernel))

end Mock

/-! ## The sales -/

/-- **What a call takes is agreed to**: `a` buys `x` at the price `b` has
listed it for, or `b` takes the offer `a` has made on it, and the listing
or the offer is the last there has been. -/
inductive Bargain (h : List (State W × Act W)) (x : NftKey) (p : Balance) (a b : AccountId) :
    Act W → Prop
  | bought {v : Option Balance} {e : Option BlockNumber} {s₁ : State W}
      (hlisted : LastTouch h (.listing x) s₁ (.signed b (.list x p e)))
      (hprice : ∀ q, v = some q → p = q) : Bargain h x p a b (.signed a (.buy x v))
  | offered {e : Option BlockNumber} {s₁ : State W}
      (hoffered : LastTouch h (.offer x a) s₁ (.signed a (.makeOffer x p e))) :
      Bargain h x p a b (.signed b (.acceptOffer x a))

/-- A state in which the other pallets have what they had. -/
theorem balance_congr (h : s'.ext = s.ext) : s'.balance a = s.balance a := by
  rw [State.balance, State.balance, h]

/-- What is reserved is still its owner's. -/
theorem balance_reserve {v : Balance} {w : W} (hw : Currency.reserve s.ext o v = .ok w)
    (h : s'.ext = w) : s'.balance a = s.balance a := by
  obtain ⟨hfree, hothers⟩ := Currency.free_reserve hw
  rw [State.balance, State.balance, h, Currency.reserved_reserve hw]
  by_cases ha : a = o
  · subst ha
    rw [Function.update_self, ← hfree, Nat.add_right_comm, Nat.add_assoc]
  · rw [Function.update_of_ne ha, hothers a ha]

variable [Deposits W]

omit [Config W] [Deposits W] in
/-- All that is anyone's. -/
theorem Settled.total [Config W] (h : Settled b a x p s s') :
    ∑ c, s'.balance c = ∑ c, s.balance c :=
  Finset.sum_eq_of_transfer h.buyer h.seller fun c hb ha => by
    obtain ⟨hfree, hreserved⟩ := h.others c hb ha
    rw [State.balance, State.balance, hfree, hreserved]

/-- **The market moves funds by sales only**, each from who has agreed to
pay to who has agreed to sell, for the NFT; whatever else is done there or
in `rmrk-equip`, everyone has what he had, and all have together what they
had. -/
theorem funds_moved (hr : IsRun h s) {call : Call W} (hstep : Step s (.signed o call) s')
    (hcall : call.pallet ≠ .core) :
    ((∀ c, s'.balance c = s.balance c) ∨
      ∃ x p a b, Bargain h x p a b (.signed o call) ∧ Settled b a x p s s') ∧
    ∑ c, s'.balance c = ∑ c, s.balance c := by
  have hcases : (∀ c, s'.balance c = s.balance c) ∨
      ∃ x p a b, Bargain h x p a b (.signed o call) ∧ Settled b a x p s s' := by
    by_cases hbooked : call.booked = false
    · exact .inl fun c => balance_congr (dispatch_books hbooked _ _ _ hstep).ext
    · cases call with
      | buy x v =>
          obtain ⟨b, info, -, hinfo, rfl, -, hprice, hsettled, -⟩ := buy_settles hstep
          obtain ⟨s₁, hlast, -⟩ := listed_by hr hinfo
          exact .inr ⟨x, info.amount, o, info.listedBy, .bought hlast hprice, hsettled⟩
      | makeOffer =>
          obtain ⟨-, -, w, hw, hs'⟩ := Market.makeOffer_reserves hstep
          exact .inl fun c => balance_reserve hw (congrArg State.ext hs')
      | withdrawOffer =>
          obtain ⟨offer, owner, -, -, -, hs'⟩ := Market.withdrawOffer_iff.1 hstep
          exact .inl fun c => by rw [hs']; exact balance_unreserve c
      | acceptOffer x a =>
          obtain ⟨offer, -, hoffer, -, hsettled, -⟩ :=
            acceptOffer_settles (Reachable.solvent hr.reachable) hstep
          obtain ⟨s₁, w, hlast, -⟩ := offered_by hr hoffer
          exact .inr ⟨x, offer.amount, a, o, .offered hlast, hsettled⟩
      | _ => first | exact absurd rfl hcall | exact absurd rfl hbooked
  refine ⟨hcases, ?_⟩
  rcases hcases with hsame | ⟨x, p, a, b, -, hsettled⟩
  · exact Finset.sum_congr rfl fun c _ => hsame c
  · exact hsettled.total

namespace Mock

/-- **Bob pays Alice what he has offered**, once she takes it. -/
theorem moved_traded : ∃ x p a b, Bargain (history (traded.drop 1)) x p a b
      (.signed alice (.acceptOffer (0, 1) bob)) ∧
    Settled b a x p (replay (traded.drop 1)) (replay traded) := by
  have hr : IsRun (history (traded.drop 1)) (replay (traded.drop 1)) :=
    isRun_replay (by decide +kernel)
  have hstep : Step (replay (traded.drop 1)) (.signed alice (.acceptOffer (0, 1) bob))
      (replay traded) :=
    step_apply (e := (alice, .acceptOffer (0, 1) bob)) (by decide +kernel)
  rcases (funds_moved hr hstep nofun).1 with hsame | hsold
  · exact absurd (hsame bob) (by decide +kernel)
  · exact hsold

end Mock

end Rmrk
