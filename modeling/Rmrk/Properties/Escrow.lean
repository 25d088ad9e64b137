import Mathlib.Data.Fintype.Vector
import Rmrk.Common.Total
import Rmrk.Helpers.Escrow
import Rmrk.Helpers.Lookup
import Rmrk.Mock.Replay
/-!
# The market is solvent

Each offer has its amount reserved, over and above what is held by others,
and an account's offers are reserved together. `unreserve` releases no
more than there is: that there is enough is a sum over all tokens, which
every step keeps.
-/

namespace Rmrk

open Effect

/-! ## The accounts are finite in number -/

instance fintypeUInt8 : Fintype UInt8 :=
  Fintype.ofEquiv (Fin UInt8.size) ⟨UInt8.ofFin, UInt8.toFin, fun _ => rfl, fun _ => rfl⟩

instance fintypeAccountId : Fintype AccountId :=
  Fintype.ofEquiv (List.Vector UInt8 32)
    ⟨fun v => ⟨v.1, v.2⟩, fun a => ⟨a.bytes, a.length_eq⟩, fun _ => rfl, fun _ => rfl⟩

variable {W : Type} {s s' : State W} {x : NftKey} {o k a : AccountId} {offer : Offer}

/-! ## The property -/

/-- What of an offer's amount is reserved for `a`. -/
def Offer.of (offer : Offer) (a : AccountId) : ℕ := if offer.maker = a then offer.amount else 0

theorem Offer.of_maker (h : offer.maker = a) : offer.of a = offer.amount := if_pos h

theorem Offer.of_ne (h : offer.maker ≠ a) : offer.of a = 0 := if_neg h

/-- **The amounts of all the offers an account has made.** -/
def State.outstanding (s : State W) (a : AccountId) : ℕ := s.offers.total fun offer => offer.of a

variable [Config W]

/-- `unreserve` releases the whole of `v`. -/
def ReleasesAll (w : W) (a : AccountId) (v : Balance) : Prop :=
  Currency.free (Currency.unreserve w a v) a = Currency.free w a + v ∧
    Currency.reserved (Currency.unreserve w a v) a + v = Currency.reserved w a

variable [Deposits W]

/-- **The reserves cover the offers**, and what others hold besides. -/
structure Solvent (s : State W) : Prop where
  maker : ∀ x k offer, s.offers (x, k) = some offer → offer.maker = k
  covered : ∀ a, s.outstanding a + Deposits.held s.ext a ≤ Currency.reserved s.ext a

theorem Solvent.held_le (hs : Solvent s) (a : AccountId) :
    Deposits.held s.ext a ≤ Currency.reserved s.ext a :=
  le_trans (Nat.le_add_left _ _) (hs.covered a)

/-- One offer is covered. -/
theorem Solvent.amount_le (hs : Solvent s) (hoffer : s.offers (x, k) = some offer) :
    offer.amount ≤ Currency.reserved s.ext offer.maker := by
  have hle := StorageMap.le_total (f := fun offer' => offer'.of offer.maker) hoffer
  rw [Offer.of_maker rfl] at hle
  exact le_trans (le_trans hle (Nat.le_add_right _ _)) (hs.covered offer.maker)

theorem Solvent.releasesAll (hs : Solvent s) (hoffer : s.offers (x, k) = some offer) :
    ReleasesAll s.ext offer.maker offer.amount := by
  have hle := hs.amount_le hoffer
  refine ⟨?_, ?_⟩
  · rw [Currency.free_unreserve, Function.update_self, Nat.min_eq_left hle]
  · rw [Currency.reserved_unreserve, Function.update_self, Nat.sub_add_cancel hle]

/-! ## One step -/

/-- A step that leaves the offers alone. -/
theorem Solvent.same (hs : Solvent s) (h : SameEscrow s s') : Solvent s' where
  maker x k offer hoffer := hs.maker x k offer (h.offers ▸ hoffer)
  covered a := by
    have hheld := h.held hs.held_le a
    have hout : s'.outstanding a = s.outstanding a := by
      rw [State.outstanding, State.outstanding, h.offers]
    have hcov := hs.covered a
    rw [hout]
    omega

/-- A new offer is reserved. -/
theorem Solvent.made {v : Balance} {e : Option BlockNumber} {w : W} (hs : Solvent s)
    (hnone : s.offers (x, o) = none) (hw : Currency.reserve s.ext o v = .ok w) :
    Solvent { s with
      ext := w
      offers := s.offers.insert (x, o) { maker := o, amount := v, expires := e } } where
  maker y k offer hoffer := by
    rcases StorageMap.insert_eq_some_iff.1 hoffer with ⟨hk, rfl⟩ | ⟨-, hoffer⟩
    · exact (congrArg Prod.snd hk).symm
    · exact hs.maker y k offer hoffer
  covered a := by
    change StorageMap.total (s.offers.insert (x, o) _) _ + Deposits.held w a ≤ _
    rw [StorageMap.total_insert hnone, Deposits.held_reserve hw, Currency.reserved_reserve hw]
    have hcov := hs.covered a
    rw [State.outstanding] at hcov
    by_cases ha : a = o
    · subst ha
      rw [Function.update_self, Offer.of_maker rfl]
      change _ + v + _ ≤ _ + v
      rw [Nat.add_right_comm]
      exact Nat.add_le_add_right hcov v
    · rw [Function.update_of_ne ha, Offer.of_ne (Ne.symm ha), Nat.add_zero]
      exact hcov

/-- An offer that is taken out has its amount released. -/
theorem Solvent.release (hs : Solvent s) (hoffer : s.offers (x, k) = some offer) :
    Solvent { s with
      ext := Currency.unreserve s.ext offer.maker offer.amount
      offers := s.offers.remove (x, k) } where
  maker y k' offer' hoffer' := hs.maker y k' offer' (StorageMap.remove_eq_some_iff.1 hoffer').2
  covered a := by
    change StorageMap.total (s.offers.remove (x, k)) _ +
      Deposits.held (Currency.unreserve _ _ _) a ≤ _
    have hsum := StorageMap.total_remove (f := fun offer' => offer'.of a) hoffer
    have hcov := hs.covered a
    rw [State.outstanding] at hcov
    rw [Deposits.held_unreserve, Currency.reserved_unreserve]
    by_cases ha : a = offer.maker
    · rw [Offer.of_maker ha.symm] at hsum
      rw [ha, Function.update_self, ← ha]
      omega
    · rw [Offer.of_ne (Ne.symm ha)] at hsum
      rw [Function.update_of_ne ha]
      omega

/-- **Every step keeps the market solvent.** -/
theorem Solvent.step {act : Act W} (hs : Solvent s) (hstep : Step s act s') : Solvent s' := by
  cases hstep.escrowed with
  | same h => exact hs.same h
  | made howner hnone hw h => exact h ▸ hs.made hnone hw
  | withdrawn hoffer h => exact h ▸ hs.release hoffer
  | accepted hoffer hsold h =>
      -- the sale leaves the offers, and what is reserved for the others
      refine (hs.release hoffer).same ?_
      subst h
      exact ⟨by rw [hsold.offers], hsold.held⟩

/-! ## Every reachable state -/

theorem Reachable.solvent (hr : Reachable s) : Solvent s := by
  refine hr.invariant (fun s h0 => ?_) fun _ _ _ _ hs hstep => hs.step hstep
  obtain ⟨w, howner, hcols, rfl⟩ := h0
  refine ⟨fun x k offer hoffer => (by cases hoffer), fun a => ?_⟩
  have hzero : (genesis w).outstanding a = 0 := StorageMap.total_empty
  rw [hzero, Nat.zero_add]
  exact Deposits.held_genesis howner hcols a

/-- **Solvency.** Whoever an offer is filed under has made it, the offers
of an account are reserved together, and so whatever offer is taken out
its whole amount is released. -/
theorem escrow_solvent (hr : Reachable s) :
    (∀ x k offer, s.offers (x, k) = some offer → offer.maker = k) ∧
      (∀ a, s.outstanding a ≤ Currency.reserved s.ext a) ∧
      ∀ x k offer, s.offers (x, k) = some offer → ReleasesAll s.ext offer.maker offer.amount := by
  have hs := Reachable.solvent hr
  refine ⟨hs.maker, fun a => ?_, fun x k offer hoffer => hs.releasesAll hoffer⟩
  exact le_trans (Nat.le_add_right _ _) (hs.covered a)

namespace Mock

/-- Bob makes offers on two NFTs of Alice's, and takes one back. -/
def offeredTwice : List Extrinsic :=
  [(bob, .withdrawOffer (0, 0)), (bob, .makeOffer (0, 1) 60 none), (bob, .makeOffer (0, 0) 50 none),
    (alice, mintTo alice), (alice, mintTo alice), (alice, newCollection)]

theorem solvent_offeredTwice :
    (replay offeredTwice).outstanding bob ≤ Currency.reserved (replay offeredTwice).ext bob ∧
      ReleasesAll (replay offeredTwice).ext bob 60 := by
  have hr : Reachable (replay offeredTwice) := reachable_replay (by decide +kernel)
  obtain ⟨-, hcov, hall⟩ := escrow_solvent hr
  have hoffer : (replay offeredTwice).offers ((0, 1), bob) =
      some { maker := bob, amount := 60, expires := none } := by decide +kernel
  exact ⟨hcov bob, hall (0, 1) bob _ hoffer⟩

end Mock

end Rmrk
