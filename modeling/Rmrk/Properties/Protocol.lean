import Rmrk.Properties.Order
/-!
# The protocol of the market

A listing of an NFT is put up and taken down, an offer of an account on an
NFT made and ended. Nothing is sold that is not listed, nothing accepted
or withdrawn that has not been offered, and neither more often than once.
What is up was put up, as it stands, by the last call that had to do with
it.
-/

namespace Rmrk

open Effect

variable {W : Type} [Config W] {s s' : State W} {act : Act W} {h : List (State W × Act W)}
variable {x : NftKey} {a : AccountId}

/-! ## The protocol -/

/-- **The listing of `x`**: it is put up, over another if need be, and what
takes it down finds it up. -/
def Act.onListing (x : NftKey) : Act W → Bool → Option Bool
  | .signed _ (.list y ..), up => some (if y = x then true else up)
  | .signed _ (.unlist y), up | .signed _ (.buy y _), up =>
      if y = x then if up then some false else none else some up
  | _, up => some up

/-- **The offer of `a` on `x`**: it is made where there is none, and what
ends it finds it made. -/
def Act.onOffer (x : NftKey) (a : AccountId) : Act W → Bool → Option Bool
  | .signed o (.makeOffer y ..), made =>
      if (y, o) = (x, a) then if made then none else some true else some made
  | .signed o (.withdrawOffer y), made =>
      if (y, o) = (x, a) then if made then some false else none else some made
  | .signed _ (.acceptOffer y offerer), made =>
      if (y, offerer) = (x, a) then if made then some false else none else some made
  | _, made => some made

/-! ## One step -/

/-- What takes an entry out finds it there. -/
theorem isSome_remove {K V : Type} [DecidableEq K] {m : StorageMap K V} {k q : K}
    (hk : (m k).isSome = true) :
    (if k = q then if (m q).isSome = true then some false else none else some (m q).isSome) =
      some (m.remove k q).isSome := by
  by_cases hkq : k = q
  · subst hkq
    simp [hk]
  · simp [hkq, StorageMap.remove_of_ne (Ne.symm hkq)]

theorem Step.onListing (hr : Reachable s) (hstep : Step s act s') :
    act.onListing x (s.listedNfts x).isSome = some (s'.listedNfts x).isSome := by
  have hl : s'.listedNfts = s.indexer.listings act :=
    (hstep.moves fun x a offer => hr.maker).listedNfts
  rw [hl]
  cases act with
  | between => rfl
  | signed o call =>
      cases call with
      | list y v e =>
          by_cases hy : y = x
          · subst hy
            simp [Act.onListing, Indexer.listings]
          · simp [Act.onListing, Indexer.listings, State.indexer, hy, Ne.symm hy]
      | unlist y => exact isSome_remove (Market.unlist_ok hstep).1
      | buy y v =>
          obtain ⟨old, info, nft, nft', hinfo, -⟩ := Market.buy_ok hstep
          exact isSome_remove (by simp [hinfo])
      | _ => rfl

theorem Step.onOffer (hstep : Step s act s') :
    act.onOffer x a (s.offers (x, a)).isSome = some (s'.offers (x, a)).isSome := by
  rw [hstep.jots.offers]
  cases act with
  | between => rfl
  | signed o call =>
      cases call with
      | makeOffer y v e =>
          obtain ⟨-, hnone, -⟩ := Market.makeOffer_reserves hstep
          by_cases hy : (y, o) = (x, a)
          · obtain ⟨rfl, rfl⟩ := Prod.mk.inj hy
            simp [Act.onOffer, Indexer.openOffers, hnone]
          · simp [Act.onOffer, Indexer.openOffers, State.indexer, hy, Ne.symm hy]
      | withdrawOffer y =>
          obtain ⟨offer, owner, hoffer, -⟩ := Market.withdrawOffer_iff.1 hstep
          exact isSome_remove (by simp [hoffer])
      | acceptOffer y offerer =>
          obtain ⟨offer, t, -, hoffer, -⟩ := Market.acceptOffer_parts hstep
          exact isSome_remove (by simp [hoffer])
      | _ => rfl

/-! ## Every run -/

/-- **The market keeps to its protocol**: over every run, for every NFT
and account, each call finds what it takes down, and what is up at the end
is what the protocol has left up. -/
theorem market_conforms (hr : IsRun h s) :
    (∀ x, (labels h).foldrM (Act.onListing x) false = some (s.listedNfts x).isSome) ∧
      ∀ x a, (labels h).foldrM (Act.onOffer x a) false = some (s.offers (x, a)).isSome := by
  refine ⟨fun x => ?_, fun x a => ?_⟩
  · refine Run.conforms (f := fun s => (s.listedNfts x).isSome) (fun s h0 => ?_)
      (fun _ _ _ hr hstep => hstep.onListing hr) hr
    obtain ⟨w, -, -, rfl⟩ := h0
    rfl
  · refine Run.conforms (f := fun s => (s.offers (x, a)).isSome) (fun s h0 => ?_)
      (fun _ _ _ _ hstep => hstep.onOffer) hr
    obtain ⟨w, -, -, rfl⟩ := h0
    rfl

/-! ## What is up -/

/-- **A listing is the last one made**: by its lister, who owned the NFT,
and the NFT has been neither listed again nor unlisted nor sold since. -/
theorem listed_by (hr : IsRun h s) {info : ListInfo} (hinfo : s.listedNfts x = some info) :
    ∃ s₁, LastTouch h (.listing x) s₁ (.signed info.listedBy (.list x info.amount info.expires)) ∧
      s₁.owner x = some info.listedBy := by
  have hk : s.indexer.look (.listing x) ≠ Indexer.blank.look (.listing x) := by
    change s.listedNfts x ≠ none
    simp [hinfo]
  obtain ⟨s₁, act, s₂, hlast, hact, hr₁, hstep, hsame⟩ := last_touch hr hk
  have hwritten : (s₁.indexer.listings act) x = some info := by
    rw [← (hstep.moves fun x a offer => hr₁.maker).listedNfts, ← hinfo]
    exact hsame.symm
  cases act with
  | between => exact absurd hact id
  | signed o call =>
      cases call <;> simp only [Act.touches, Call.touches, reduceCtorEq, exists_false, or_false,
        false_or, and_false, Cell.listing.injEq] at hact
      case list y v e =>
        subst hact
        obtain rfl : _ = info := by simpa [Indexer.listings] using hwritten
        exact ⟨s₁, hlast, (Market.list_writes hstep).1⟩
      case unlist y =>
        subst hact
        simp [Indexer.listings] at hwritten
      case buy y v =>
        subst hact
        simp [Indexer.listings] at hwritten

/-- **An offer is the last one made**: by the account it is stored under,
which had its amount reserved, and it has not been ended since. -/
theorem offered_by (hr : IsRun h s) {offer : Offer} (hoffer : s.offers (x, a) = some offer) :
    ∃ s₁ w, LastTouch h (.offer x a) s₁ (.signed a (.makeOffer x offer.amount offer.expires)) ∧
      Currency.reserve s₁.ext a offer.amount = .ok w := by
  have hk : s.indexer.look (.offer x a) ≠ Indexer.blank.look (.offer x a) := by
    change s.offers (x, a) ≠ none
    simp [hoffer]
  obtain ⟨s₁, act, s₂, hlast, hact, hr₁, hstep, hsame⟩ := last_touch hr hk
  have hwritten : (s₁.indexer.openOffers act) (x, a) = some offer := by
    rw [← hstep.jots.offers, ← hoffer]
    exact hsame.symm
  cases act with
  | between => exact absurd hact id
  | signed o call =>
      cases call <;> simp only [Act.touches, Call.touches, reduceCtorEq, exists_false, or_false,
        false_or, and_false, Cell.offer.injEq] at hact
      case makeOffer y v e =>
        obtain ⟨rfl, rfl⟩ := hact
        obtain rfl : _ = offer := by simpa [Indexer.openOffers] using hwritten
        obtain ⟨-, -, w, hw, -⟩ := Market.makeOffer_reserves hstep
        exact ⟨s₁, w, hlast, hw⟩
      case withdrawOffer y =>
        obtain ⟨rfl, rfl⟩ := hact
        simp [Indexer.openOffers] at hwritten
      case acceptOffer y offerer =>
        obtain ⟨rfl, rfl⟩ := hact
        simp [Indexer.openOffers] at hwritten

/-- **What is up was put up as it stands**, by the last call that had to do
with it: a listing by its lister, who owned the NFT, and an offer by the
account it is stored under, which had the amount reserved. -/
theorem market_provenance (hr : IsRun h s) :
    (∀ x info, s.listedNfts x = some info → ∃ s₁,
      LastTouch h (.listing x) s₁ (.signed info.listedBy (.list x info.amount info.expires)) ∧
        s₁.owner x = some info.listedBy) ∧
      ∀ x a offer, s.offers (x, a) = some offer → ∃ s₁ w,
        LastTouch h (.offer x a) s₁ (.signed a (.makeOffer x offer.amount offer.expires)) ∧
          Currency.reserve s₁.ext a offer.amount = .ok w :=
  ⟨fun _ _ => listed_by hr, fun _ _ _ => offered_by hr⟩

namespace Mock

/-- Bob's offer has been made and accepted. -/
theorem conforms_traded :
    (labels (history traded)).foldrM (Act.onOffer (0, 1) bob) false = some false := by
  have hended : (replay traded).offers ((0, 1), bob) = none := by decide +kernel
  rw [(market_conforms (isRun_replay (by decide +kernel))).2, hended]
  rfl

/-- Before the trades both stand as they were put up. -/
theorem provenance_traded :
    (∃ s₁, LastTouch (history (traded.drop 2)) (.listing (0, 0)) s₁
      (.signed alice (.list (0, 0) 100 none)) ∧ s₁.owner (0, 0) = some alice) ∧
    ∃ s₁ w, LastTouch (history (traded.drop 2)) (.offer (0, 1) bob) s₁
      (.signed bob (.makeOffer (0, 1) 60 none)) ∧ Currency.reserve s₁.ext bob 60 = .ok w := by
  have hr : IsRun (history (traded.drop 2)) (replay (traded.drop 2)) :=
    isRun_replay (by decide +kernel)
  exact ⟨(market_provenance hr).1 (0, 0) { listedBy := alice, amount := 100, expires := none }
      (by decide +kernel),
    (market_provenance hr).2 (0, 1) bob { maker := bob, amount := 60, expires := none }
      (by decide +kernel)⟩

end Mock

end Rmrk
