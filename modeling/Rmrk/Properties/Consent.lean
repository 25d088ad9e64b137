import Rmrk.Helpers.Issued
import Rmrk.Mock.Replay
/-!
# Consent to a sale

An account loses an NFT of its own by what it signs itself, or to a buyer
who pays the price it asks. A listing should end with the ownership it was
made in: `send` and `accept_nft` do not move what is listed, as it is
locked, and `buy` takes the listing. `accept_offer` leaves it behind
without its lock, and it is good again once the NFT has come back to its
lister.
-/

namespace Rmrk

variable {W : Type} [Config W] {s s' : State W} {act : Act W} {h : List (State W × Act W)}
variable {x z : NftKey} {a o : AccountId} {info : ListInfo}

/-! ## The property -/

/-- **`x` has been listed, as `info` says, by the owner it has had ever
since.** -/
def ListedSince (h : List (State W × Act W)) (s : State W) (x : NftKey) (info : ListInfo) : Prop :=
  s.owner x = some info.listedBy ∧ ∃ newer s₁ older,
    h = newer ++ (s₁, .signed info.listedBy (.list x info.amount info.expires)) :: older ∧
    ∀ e ∈ newer, e.1.owner x = some info.listedBy

/-- `buyer` pays `a` what `a` asks for `x`: there is a listing of `x`, it
has not expired, and its amount goes from the one to the other. -/
structure Paid (x : NftKey) (a buyer : AccountId) (info : ListInfo) (s s' : State W) : Prop where
  listed : s.listedNfts x = some info
  listedBy : info.listedBy = a
  expired : Market.expired s info.expires = false
  seller : Currency.free s'.ext a = Currency.free s.ext a + info.amount
  buyer : Currency.free s'.ext buyer + info.amount = Currency.free s.ext buyer

/-- **Consent.** An ordinary account that stops being the owner of `x` has
signed the step itself, or is paid what it asked when it listed `x`, which
it did since it came by it. -/
def Consent (h : List (State W × Act W)) (s : State W) : Prop :=
  ∀ act s', Step s act s' → ∀ x a, s.owner x = some a → decodeNftAccountId a = none →
    s'.owner x ≠ some a →
      (∃ call, act = .signed a call) ∨
      ∃ buyer amount info, act = .signed buyer (.buy x amount) ∧ Paid x a buyer info s s' ∧
        ListedSince h s x info

/-- **No offer is accepted for what is listed**, unless the listing has
expired. -/
def EndsListing (s : State W) : Act W → Prop
  | .signed _ (.acceptOffer x _) =>
      ∀ info, s.listedNfts x = some info → Market.expired s info.expires = true
  | _ => True

/-! ## Fresh listings -/

/-- A listing of `x` that has not expired is a lock, and the owner's since
he made it, unless `x` has gone. -/
def FreshAt (h : List (State W × Act W)) (s : State W) (x : NftKey) : Prop :=
  ∀ info, s.listedNfts x = some info → Market.expired s info.expires = false →
    s.owner x = none ∨ s.lock x = true ∧ ListedSince h s x info

omit [Config W] in
/-- What has expired stays so. -/
theorem expired_of_le {e : Option BlockNumber} (hblock : s.blockNumber ≤ s'.blockNumber)
    (h : Market.expired s' e = false) : Market.expired s e = false := by
  cases e with
  | none => rfl
  | some n =>
      simp only [Market.expired, decide_eq_false_iff_not, not_le] at h ⊢
      exact hblock.trans_lt h

theorem ListedSince.step (hx : ListedSince h s x info) (howner : s'.owner x = s.owner x) :
    ListedSince ((s, act) :: h) s' x info := by
  obtain ⟨hown, newer, s₁, older, rfl, hnewer⟩ := hx
  exact ⟨howner.trans hown, (s, act) :: newer, s₁, older, rfl,
    List.forall_mem_cons.2 ⟨hown, hnewer⟩⟩

theorem FreshAt.congr (hx : FreshAt h s x) (hblock : s.blockNumber ≤ s'.blockNumber)
    (hlock : s'.lock x = s.lock x) (hlisted : s'.listedNfts x = s.listedNfts x)
    (howner : s'.owner x = s.owner x) : FreshAt ((s, act) :: h) s' x := by
  intro info hinfo hexp
  rcases hx info (hlisted ▸ hinfo) (expired_of_le hblock hexp) with hgone | ⟨hl, hsince⟩
  · exact .inl (howner.trans hgone)
  · exact .inr ⟨hlock.trans hl, hsince.step howner⟩

theorem freshAt_of_unlisted (hlisted : s.listedNfts x = none) : FreshAt h s x := by
  intro info hinfo
  simp [hlisted] at hinfo

theorem freshAt_of_gone (howner : s.owner x = none) : FreshAt h s x := fun _ _ _ => .inl howner

/-- Of what is there and not locked no listing is left to expire. -/
theorem FreshAt.of_unlocked (hx : FreshAt h s x) (hlock : s.lock x = false)
    (howner : s.owner x ≠ none) (hblock : s.blockNumber ≤ s'.blockNumber)
    (hlisted : s'.listedNfts x = s.listedNfts x) : FreshAt ((s, act) :: h) s' x := by
  intro info hinfo hexp
  rcases hx info (hlisted ▸ hinfo) (expired_of_le hblock hexp) with hgone | ⟨hl, -⟩
  · exact absurd hgone howner
  · simp [hlock] at hl

/-- What is written at an NFT that is fresh after it keeps the rest. -/
theorem fresh_of_write (hs : ∀ z, FreshAt h s z) (hblock : s.blockNumber ≤ s'.blockNumber)
    (hx : FreshAt ((s, act) :: h) s' x) (hlock : ∀ z, z ≠ x → s'.lock z = s.lock z)
    (hlisted : ∀ z, z ≠ x → s'.listedNfts z = s.listedNfts z)
    (howner : ∀ z, z ≠ x → s'.owner z = s.owner z) (z : NftKey) :
    FreshAt ((s, act) :: h) s' z := by
  by_cases hz : z = x
  · exact hz ▸ hx
  · exact (hs z).congr hblock (hlock z hz) (hlisted z hz) (howner z hz)

theorem Minted.fresh {nft : NftInfo} (hsound : Sound s) (hs : ∀ z, FreshAt h s z)
    (h' : Minted x a nft s s') : ∀ z, FreshAt ((s, act) :: h) s' z := by
  have hx := h'.absent hsound
  refine fresh_of_write hs h'.blockNumber (x := x)
    (freshAt_of_unlisted (by rw [h'.listedNfts, hx.listedNfts]))
    (fun z _ => by rw [h'.lock]) (fun z _ => by rw [h'.listedNfts]) fun z hz => ?_
  rw [h'.owner, Function.update_of_ne hz]

theorem Sent.fresh {old new : AccountId} {newOwner : AccountIdOrCollectionNftTuple}
    {nft nft' : NftInfo} (hs : ∀ z, FreshAt h s z) (h' : Sent o x newOwner old new nft nft' s s')
    (hx : FreshAt ((s, act) :: h) s' x) (hlock : ∀ z, z ≠ x → s'.lock z = s.lock z)
    (hlisted : ∀ z, z ≠ x → s'.listedNfts z = s.listedNfts z) :
    ∀ z, FreshAt ((s, act) :: h) s' z :=
  fresh_of_write hs h'.blockNumber hx hlock hlisted fun z hz => by
    rw [h'.owner, Function.update_of_ne hz]

/-- **One step keeps all listings fresh.** -/
theorem fresh_step (hsound : Sound s) (hs : ∀ z, FreshAt h s z) (hc : EndsListing s act)
    (hstep : Step s act s') : ∀ z, FreshAt ((s, act) :: h) s' z := by
  have hblock := hstep.outcome.blockNumber_le
  have hsame : SameListings s s' → s'.owner = s.owner → ∀ z, FreshAt ((s, act) :: h) s' z :=
    fun hl ho z => (hs z).congr hblock (by rw [hl.lock]) (by rw [hl.listedNfts]) (by rw [ho])
  cases hstep.outcome with
  | silent _ h => exact hsame h.toSameListings h.owner
  | noted _ h => exact hsame h.toSameListings h.owner
  | mintNft _ _ h => exact h.fresh hsound hs
  | mintNftDirectlyToNft _ _ _ h => exact h.fresh hsound hs
  | @send o x _ _ _ _ _ h hlock hlist =>
      refine h.fresh hs ?_ (fun z _ => by rw [hlist.lock]) fun z _ => by rw [hlist.listedNfts]
      exact (hs x).of_unlocked hlock (by simp [h.owner_eq]) hblock (by rw [hlist.listedNfts])
  | @acceptNft o x _ _ _ h =>
      have howner : s.owner x ≠ none := Option.isSome_iff_ne_none.1 h.root.owner_isSome
      refine fresh_of_write hs hblock (x := x) ?_ (fun z _ => by rw [h.lock])
        (fun z _ => by rw [h.listedNfts]) fun z hz => by rw [h.owner, Function.update_of_ne hz]
      exact (hs x).of_unlocked h.unlocked howner hblock (by rw [h.listedNfts])
  | @burnNft o x _ _ h howner =>
      refine fresh_of_write hs hblock (x := x) (freshAt_of_gone (by simp [howner]))
        (fun z _ => by rw [h.lock]) (fun z _ => by rw [h.listedNfts]) fun z hz => ?_
      rw [howner, Function.update_of_ne hz]
  | rejectNft _ _ h howner => exact hsame h.toSameListings howner
  | unequip h => exact hsame h.toSameListings h.owner
  | equip h => exact hsame h.toSameListings h.owner
  | @list o x v e nft howner _ _ h =>
      refine fresh_of_write hs hblock (x := x) (fun info hinfo _ => ?_)
        (fun z hz => by rw [h.lock, Function.update_of_ne hz])
        (fun z hz => by rw [h.listedNfts, Function.update_of_ne hz]) fun z _ => by rw [h.owner]
      rw [h.listedNfts, Function.update_self, Option.some.injEq] at hinfo
      subst hinfo
      exact .inr ⟨by simp [h.lock], by rw [h.owner, howner], [], s, _, rfl, by simp⟩
  | @unlist o x _ h =>
      exact fresh_of_write hs hblock (x := x) (freshAt_of_unlisted (by simp [h.listedNfts]))
        (fun z hz => by rw [h.lock, Function.update_of_ne hz])
        (fun z hz => by rw [h.listedNfts, Function.update_of_ne hz]) fun z _ => by rw [h.owner]
  | buy _ _ _ h hlock hlisted =>
      exact h.fresh hs (freshAt_of_unlisted (by simp [hlisted]))
        (fun z hz => by rw [hlock, Function.update_of_ne hz])
        fun z hz => by rw [hlisted, StorageMap.remove_of_ne hz]
  | @acceptOffer o offerer x _ _ _ _ h _ hlock hlisted =>
      refine h.fresh hs (fun info hinfo hexp => ?_)
        (fun z hz => by rw [hlock, Function.update_of_ne hz]) fun z _ => by rw [hlisted]
      have := hc info (hlisted ▸ hinfo)
      simp [expired_of_le hblock hexp] at this

/-- **Every listing is fresh** at the end of a run under the condition. -/
theorem fresh_run (hr : IsRun h s) (hc : ∀ e ∈ h, EndsListing e.1 e.2) : ∀ z, FreshAt h s z := by
  refine Run.invariant_of_meets (C := fun _ => EndsListing) (P := fun h s => ∀ z, FreshAt h s z)
    ?_ ?_ hr (Run.meets_iff.2 hc)
  · rintro _ ⟨w, -, -, rfl⟩ z
    exact freshAt_of_unlisted rfl
  · exact fun _ _ _ _ hr hP hC hstep => fresh_step (Reachable.sound hr.reachable) hP hC hstep

/-! ## Who loses an NFT -/

/-- An ordinary account that owns an NFT is its root owner. -/
theorem RootOwner.eq_of_owner (hx : RootOwner s x o) (ha : s.owner x = some a)
    (hord : decodeNftAccountId a = none) : o = a :=
  (rootOwner_of_owner ha hord).1 hx

/-- **An ordinary account loses an NFT to a buyer who pays, or signs.** -/
theorem Outcome.signed_or_paid (hsound : Sound s) (h : Outcome s s' act) (ha : s.owner x = some a)
    (hord : decodeNftAccountId a = none) (hlost : s'.owner x ≠ some a) :
    (∃ call, act = .signed a call) ∨
      ∃ buyer amount info, act = .signed buyer (.buy x amount) ∧ Paid x a buyer info s s' := by
  have hkept : s'.owner = s.owner → False := fun ho => hlost (by rw [ho, ha])
  -- what is written is the owner of `x`
  have hwrite : ∀ {z : NftKey} {c : Option AccountId},
      s'.owner = Function.update s.owner z c → z = x := fun {z c} ho => by
    by_contra hz
    exact hlost (by rw [ho, Function.update_of_ne (Ne.symm hz), ha])
  cases h with
  | silent _ h => exact (hkept h.owner).elim
  | noted _ h => exact (hkept h.owner).elim
  | mintNft _ _ h =>
      have := (h.absent hsound).owner
      simp [hwrite h.owner, ha] at this
  | mintNftDirectlyToNft _ _ _ h =>
      have := (h.absent hsound).owner
      simp [hwrite h.owner, ha] at this
  | send h =>
      obtain rfl := hwrite h.owner
      exact .inl ⟨_, by rw [h.root.eq_of_owner ha hord]⟩
  | acceptNft h =>
      obtain rfl := hwrite h.owner
      exact .inl ⟨_, by rw [h.root.eq_of_owner ha hord]⟩
  | burnNft hroot _ howner =>
      obtain rfl := hwrite howner
      exact .inl ⟨_, by rw [hroot.eq_of_owner ha hord]⟩
  | rejectNft _ _ _ howner => exact (hkept howner).elim
  | unequip h => exact (hkept h.owner).elim
  | equip h => exact (hkept h.owner).elim
  | list _ _ _ h => exact (hkept h.owner).elim
  | unlist _ h => exact (hkept h.owner).elim
  | buy hinfo hby hexp h _ _ hold hnew =>
      obtain rfl := hwrite h.owner
      obtain rfl := Option.some.inj (h.owner_eq.symm.trans ha)
      exact .inr ⟨_, _, _, rfl, hinfo, hby, hexp, hold, hnew⟩
  | acceptOffer _ h =>
      obtain rfl := hwrite h.owner
      exact .inl ⟨_, by rw [h.root.eq_of_owner ha hord]⟩

/-- **Consent over a run.** No ordinary account loses an NFT without its
consent at the end of a run in which no offer is accepted for what is
listed. -/
theorem consent_run (hr : IsRun h s) (hc : ∀ e ∈ h, EndsListing e.1 e.2) : Consent h s := by
  intro act s' hstep x a ha hord hlost
  have hsound := Reachable.sound hr.reachable
  rcases hstep.outcome.signed_or_paid hsound ha hord hlost with
    hsigned | ⟨buyer, v, info, hact, hpaid⟩
  · exact .inl hsigned
  · rcases fresh_run hr hc x info hpaid.listed hpaid.expired with hgone | ⟨-, hsince⟩
    · simp [ha] at hgone
    · exact .inr ⟨buyer, v, info, hact, hpaid, hsince⟩

namespace Mock

/-- Alice lists an NFT, accepts Bob's offer for it, and is sent it back. -/
def soldAndBack : List Extrinsic :=
  [(bob, .send (0, 0) (.accountId alice)), (alice, .acceptOffer (0, 0) bob),
    (bob, .makeOffer (0, 0) 60 none), (alice, .list (0, 0) 100 none),
    (alice, mintTo alice), (alice, newCollection)]

/-- **Charlie buys it by the listing of before.** -/
theorem not_consent_of_run :
    ¬ ∀ (h : List (State Storage × Act Storage)) (s : State Storage), IsRun h s → Consent h s := by
  intro hall
  have hbuy : returns (charlie, .buy (0, 0) (some 100)) (replay soldAndBack) = true := by
    decide +kernel
  have halice : (replay soldAndBack).owner (0, 0) = some alice := by decide +kernel
  have hcharlie : (apply (charlie, .buy (0, 0) (some 100)) (replay soldAndBack)).owner (0, 0) =
      some charlie := by decide +kernel
  have hbob : (replay soldAndBack.tail).owner (0, 0) = some bob := by decide +kernel
  rcases hall _ _ (isRun_replay (by decide +kernel)) _ _ (step_apply hbuy) (0, 0) alice halice
      (by decide +kernel) (by rw [hcharlie]; decide +kernel) with
    ⟨call, hcall⟩ | ⟨buyer, v, info, -, hpaid, -, newer, s₁, older, hh, hnewer⟩
  · simp only [Act.signed.injEq] at hcall
    exact absurd hcall.1 (by decide +kernel)
  · -- the last entry is Bob's, and no listing
    cases newer with
    | nil => simp [soldAndBack, history] at hh
    | cons e newer =>
        have howner := hnewer e (by simp)
        simp only [soldAndBack, history, List.cons_append, List.cons.injEq] at hh
        rw [← hh.1, hpaid.listedBy] at howner
        rw [soldAndBack, List.tail_cons] at hbob
        rw [howner, Option.some.injEq] at hbob
        exact absurd hbob (by decide +kernel)

/-- Alice lists an NFT. -/
def forSale : List Extrinsic :=
  [(alice, .list (0, 0) 100 none), (alice, mintTo alice), (alice, newCollection)]

/-- Charlie buys it by that listing. -/
theorem consent_forSale :
    ∃ info, Paid (0, 0) alice charlie info (replay forSale)
        (apply (charlie, .buy (0, 0) (some 100)) (replay forSale)) ∧
      ListedSince (history forSale) (replay forSale) (0, 0) info := by
  have hbuy : returns (charlie, .buy (0, 0) (some 100)) (replay forSale) = true := by
    decide +kernel
  have hcharlie : (apply (charlie, .buy (0, 0) (some 100)) (replay forSale)).owner (0, 0) =
      some charlie := by decide +kernel
  have hc : ∀ e ∈ history forSale, EndsListing e.1 e.2 := by
    simp only [forSale, history, List.forall_mem_cons, List.not_mem_nil, false_imp_iff,
      implies_true, and_true]
    exact ⟨trivial, trivial, trivial⟩
  rcases consent_run (isRun_replay (by decide +kernel)) hc _ _ (step_apply hbuy) (0, 0) alice
      (by decide +kernel) (by decide +kernel) (by rw [hcharlie]; decide +kernel) with
    ⟨call, hcall⟩ | ⟨buyer, v, info, hact, hpaid, hsince⟩
  · simp only [Act.signed.injEq] at hcall
    exact absurd hcall.1 (by decide +kernel)
  · simp only [Act.signed.injEq] at hact
    obtain ⟨rfl, -⟩ := hact
    exact ⟨info, hpaid, hsince⟩

end Mock

end Rmrk
