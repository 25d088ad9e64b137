import Rmrk.Helpers.Trades
import Rmrk.Properties.Escrow
/-!
# What a sale settles

`buy` and `accept_offer` share `do_buy`: one takes the price from the
listing and takes the listing, the other from the offer, whose amount has
been released and which goes once the NFT has been sent. Either way the
price goes from buyer to seller and the NFT the other way.
-/

namespace Rmrk

open Effect

variable {W : Type} [Config W] {s s' t : State W} {x : NftKey} {o a b : AccountId} {u : Unit}
variable {v p : Balance} {amount : Option Balance}

/-! ## The property -/

/-- What an account has, free and reserved. -/
def State.balance (s : State W) (a : AccountId) : Balance :=
  Currency.free s.ext a + Currency.reserved s.ext a

/-- What expires has not done so yet. -/
def InTime (s : State W) (expires : Option BlockNumber) : Prop :=
  ∀ e, expires = some e → s.blockNumber < e

/-- **`b` has paid `p` to `a` for `x`**, and has it. -/
structure Settled (a b : AccountId) (x : NftKey) (p : Balance) (s s' : State W) : Prop where
  buyer : s'.balance b + p = s.balance b
  seller : s'.balance a = s.balance a + p
  others : ∀ c, c ≠ a → c ≠ b → Currency.free s'.ext c = Currency.free s.ext c ∧
    Currency.reserved s'.ext c = Currency.reserved s.ext c
  owner : s'.owner x = some b
  record : ∃ nft, s'.nfts x = some nft ∧ nft.owner = .accountId b
  lock : s'.lock x = false

/-! ## `do_buy` -/

omit [Config W] in
theorem inTime_iff {e : Option BlockNumber} : Market.expired s e = false ↔ InTime s e := by
  cases e with
  | none => simp [Market.expired, InTime]
  | some e => simp [Market.expired, InTime]

omit [Config W] in
/-- Reading the price moves no funds and locks nothing. -/
theorem listPrice_ext {isOffer : Bool} {price : Balance}
    (h : Market.listPrice b a x isOffer s = .ok price t) : t.ext = s.ext := by
  cases isOffer with
  | true => rw [← (Market.listPrice_offer h).1]
  | false => rw [(Market.listPrice_listing h).1]

/-- What a payment does to the two balances. -/
theorem balance_of_transfer {w : W} {r : ExistenceRequirement} (hne : b ≠ a)
    (h : Currency.transfer s.ext b a p r = .ok w) (hfree : Currency.free s'.ext = Currency.free w)
    (hreserved : Currency.reserved s'.ext = Currency.reserved w) :
    s'.balance b + p = s.balance b ∧ s'.balance a = s.balance a + p ∧
      ∀ c, c ≠ a → c ≠ b → Currency.free s'.ext c = Currency.free s.ext c ∧
        Currency.reserved s'.ext c = Currency.reserved s.ext c := by
  obtain ⟨hbuyer, hseller, hothers⟩ := Currency.free_transfer h hne
  have hsame := hreserved.trans (Currency.reserved_transfer h)
  simp only [State.balance, hfree, hsame]
  refine ⟨?_, ?_, fun c ha hb => ⟨hothers c hb ha, trivial⟩⟩
  · rw [Nat.add_right_comm, hbuyer]
  · rw [hseller, Nat.add_right_comm]

variable [Deposits W]

/-- **What `do_buy` settles.** -/
theorem doBuy_settles {isOffer : Bool} (h : Market.doBuy b x amount isOffer s = .ok u s') :
    ∃ a price t, s.owner x = some a ∧ Market.listPrice b a x isOffer s = .ok price t ∧
      (∀ v, amount = some v → price = v) ∧ Settled a b x price s s' ∧
      s'.listedNfts = t.listedNfts := by
  obtain ⟨a, price, t, w, howner, hne, hprice, hamount, hpay, hsend⟩ := Market.doBuy_ok h
  rw [listPrice_ext hprice] at hpay
  obtain ⟨old, new, nft, nft', hsent, -, hlist, w', htransfer, rfl⟩ := Core.send_ok hsend
  obtain rfl : new = b := hsent.target
  have hnft' := hsent.approved fun h => h
  obtain ⟨hbuyer, hseller, hothers⟩ := balance_of_transfer hne hpay
    (Config.free_doTransfer htransfer) (Deposits.reserved_doTransfer htransfer)
  refine ⟨a, price, t, howner, hprice, hamount, ?_, hlist.listedNfts⟩
  exact {
    buyer := hbuyer
    seller := hseller
    others := hothers
    owner := by rw [hsent.owner, Function.update_self]
    record := ⟨nft', by rw [hsent.nfts, StorageMap.insert_self], by rw [hnft']⟩
    lock := by rw [hlist.lock]; exact Function.update_self _ _ _ }

omit [Deposits W] in
/-- What is released of an account's reserve it still has. -/
theorem balance_unreserve (c : AccountId) :
    State.balance { s with ext := Currency.unreserve s.ext b v } c = s.balance c := by
  have hsum : ∀ f r n : ℕ, f + min n r + (r - n) = f + r := fun f r n => by omega
  simp only [State.balance, Currency.free_unreserve, Currency.reserved_unreserve]
  by_cases hc : c = b
  · subst hc
    rw [Function.update_self, Function.update_self]
    exact hsum _ _ _
  · rw [Function.update_of_ne hc, Function.update_of_ne hc]

omit [Deposits W] in
/-- A sale the buyer's reserve is released for. -/
theorem Settled.of_unreserve
    (h : Settled a b x p { s with ext := Currency.unreserve s.ext b v } s') :
    Settled a b x p s s' where
  buyer := h.buyer.trans (balance_unreserve b)
  seller := by rw [h.seller, balance_unreserve]
  others c ha hb := by
    obtain ⟨hfree, hreserved⟩ := h.others c ha hb
    rw [hfree, hreserved]
    exact ⟨(congrFun Currency.free_unreserve c).trans (Function.update_of_ne hb _ _),
      (congrFun Currency.reserved_unreserve c).trans (Function.update_of_ne hb _ _)⟩
  owner := h.owner
  record := h.record
  lock := h.lock

/-! ## The two calls -/

/-- A purchase from the listing. -/
theorem buy_settles (h : Market.buy b x amount s = .ok u s') :
    ∃ a info, s.owner x = some a ∧ s.listedNfts x = some info ∧ info.listedBy = a ∧
      InTime s info.expires ∧ (∀ v, amount = some v → info.amount = v) ∧
      Settled a b x info.amount s s' ∧ s'.listedNfts x = none := by
  rw [Market.buy, transactional_ok] at h
  obtain ⟨a, price, t, howner, hprice, hamount, hsettled, hlisted⟩ := doBuy_settles h
  obtain ⟨rfl, info, hinfo, hby, hexp, rfl⟩ := Market.listPrice_listing hprice
  refine ⟨a, info, howner, hinfo, hby, inTime_iff.1 hexp, hamount, hsettled, ?_⟩
  rw [hlisted]
  exact StorageMap.remove_self

/-- A sale to an offerer, who is the maker of the offer. -/
theorem acceptOffer_settles (hs : Solvent s) (h : Market.acceptOffer a x b s = .ok u s') :
    ∃ offer, s.owner x = some a ∧ s.offers (x, b) = some offer ∧ InTime s offer.expires ∧
      Settled a b x offer.amount s s' ∧ s'.offers (x, b) = none := by
  obtain ⟨offer, t, howner, hoffer, hexp, hbuy, rfl⟩ := Market.acceptOffer_parts h
  obtain rfl : offer.maker = b := hs.maker x b offer hoffer
  obtain ⟨old, price, t', hold, hprice, -, hsettled, -⟩ := doBuy_settles hbuy
  -- the offer is still stored, so the price is its amount
  obtain ⟨-, offer', hoffer', rfl⟩ := Market.listPrice_offer hprice
  obtain rfl : offer = offer' := Option.some.inj (hoffer.symm.trans hoffer')
  rw [Market.owner_unreserve] at hold
  obtain rfl : old = a := Option.some.inj (hold.symm.trans howner)
  have hsold := hsettled.of_unreserve
  refine ⟨offer, howner, hoffer, inTime_iff.1 hexp, ?_, StorageMap.remove_self⟩
  exact ⟨hsold.buyer, hsold.seller, hsold.others, hsold.owner, hsold.record, hsold.lock⟩

/-- **Settlement.** A purchase and an accepted offer charge what has been
asked or offered, in time; the price changes hands, the NFT changes hands,
and the listing or the offer is gone. Where either fails nothing has
happened. -/
theorem sale_settles (hr : Reachable s) :
    (∀ b x amount s', dispatch b (.buy x amount) s = .ok () s' →
      ∃ a info, s.owner x = some a ∧ s.listedNfts x = some info ∧ info.listedBy = a ∧
        InTime s info.expires ∧ (∀ v, amount = some v → info.amount = v) ∧
        Settled a b x info.amount s s' ∧ s'.listedNfts x = none) ∧
      (∀ a x b s', dispatch a (.acceptOffer x b) s = .ok () s' →
        ∃ offer, s.owner x = some a ∧ s.offers (x, b) = some offer ∧ InTime s offer.expires ∧
          Settled a b x offer.amount s s' ∧ s'.offers (x, b) = none) ∧
      (∀ b x amount e s', dispatch b (.buy x amount) s = .error e s' → s' = s) ∧
      ∀ a x b e s', dispatch a (.acceptOffer x b) s = .error e s' → s' = s := by
  refine ⟨fun b x amount s' h => buy_settles h, fun a x b s' h => ?_,
    fun b x amount e s' h => transactional_error h, fun a x b e s' h => transactional_error h⟩
  exact acceptOffer_settles (Reachable.solvent hr) h

namespace Mock

/-- Alice lists one NFT, and Bob has made an offer on the other. -/
def listedAndOffered : List Extrinsic :=
  [(bob, .makeOffer (0, 1) 60 none), (alice, .list (0, 0) 100 none), (alice, mintTo alice),
    (alice, mintTo alice), (alice, newCollection)]

theorem settles_listedAndOffered :
    Settled alice bob (0, 0) 100 (replay listedAndOffered)
        (apply (bob, .buy (0, 0) (some 100)) (replay listedAndOffered)) ∧
      Settled alice bob (0, 1) 60 (replay listedAndOffered)
        (apply (alice, .acceptOffer (0, 1) bob) (replay listedAndOffered)) := by
  have hr : Reachable (replay listedAndOffered) := reachable_replay (by decide +kernel)
  obtain ⟨hbuy, haccept, -⟩ := sale_settles hr
  have hlisted : (replay listedAndOffered).listedNfts (0, 0) =
      some { listedBy := alice, amount := 100, expires := none } := by decide +kernel
  have hoffered : (replay listedAndOffered).offers ((0, 1), bob) =
      some { maker := bob, amount := 60, expires := none } := by decide +kernel
  obtain ⟨a, info, -, hinfo, rfl, -, -, hbought, -⟩ := hbuy bob (0, 0) (some 100) _
    (step_apply (e := (bob, .buy (0, 0) (some 100))) (by decide +kernel))
  obtain ⟨offer, -, hoffer, -, hsold, -⟩ := haccept alice (0, 1) bob _
    (step_apply (e := (alice, .acceptOffer (0, 1) bob)) (by decide +kernel))
  rw [hlisted, Option.some.injEq] at hinfo
  rw [hoffered, Option.some.injEq] at hoffer
  subst hinfo hoffer
  exact ⟨hbought, hsold⟩

end Mock

end Rmrk
