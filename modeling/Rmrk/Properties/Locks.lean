import Rmrk.Helpers.Issued
import Rmrk.Mock.Replay
/-!
# Locks and listings

`list` locks an NFT, `unlist` and the sale of it unlock it, so that a lock
should stand for a listing of the present owner's, and what is locked be
left alone. `accept_offer` takes the lock and leaves the listing;
`burn_nft` and `reject_nft` look at neither, and three calls on resources
do not look at the lock.
-/

namespace Rmrk

variable {W : Type} [Config W] {s s' : State W} {act : Act W} {h : List (State W × Act W)}
variable {x y z : NftKey} {a o : AccountId}

/-! ## A lock is a listing -/

/-- **The lock and the listing of an NFT agree**, and the lister is the
owner. -/
structure CoherentAt (x : NftKey) (s : State W) : Prop where
  lock : s.lock x = true ↔ (s.listedNfts x).isSome = true
  listed : ∀ info, s.listedNfts x = some info →
    (s.nfts x).isSome = true ∧ s.owner x = some info.listedBy

/-- They do of every NFT. -/
def Coherent (s : State W) : Prop := ∀ x, CoherentAt x s

/-- **Nothing listed is burned, rejected or sold to an offer.** -/
def SparesListed (s : State W) : Act W → Prop
  | .signed _ (.burnNft x _) => ∀ y, Below s x y → s.listedNfts y = none
  | .signed _ (.rejectNft x) => ∀ y, Below s x y → s.listedNfts y = none
  | .signed _ (.acceptOffer x _) => s.listedNfts x = none
  | _ => True

theorem sparesListed_of_still (h : act.still = true) : SparesListed s act := by
  cases act with
  | between => trivial
  | signed o c => cases c <;> trivial

theorem CoherentAt.congr (hz : CoherentAt z s) (hlock : s'.lock z = s.lock z)
    (hlisted : s'.listedNfts z = s.listedNfts z) (hnfts : s'.nfts z = none ↔ s.nfts z = none)
    (howner : s'.owner z = s.owner z) : CoherentAt z s' where
  lock := by rw [hlock, hlisted]; exact hz.lock
  listed info hinfo := by
    rw [hlisted] at hinfo
    obtain ⟨hn, ho⟩ := hz.listed info hinfo
    rw [Option.isSome_iff_ne_none] at hn ⊢
    exact ⟨fun h => hn (hnfts.1 h), howner.trans ho⟩

/-- What is neither locked nor listed is coherent. -/
theorem coherentAt_of_free (hlock : s.lock z = false) (hlisted : s.listedNfts z = none) :
    CoherentAt z s where
  lock := by simp [hlock, hlisted]
  listed info hinfo := by simp [hlisted] at hinfo

theorem CoherentAt.listed_of_unlocked (hx : CoherentAt x s) (hlock : s.lock x = false) :
    s.listedNfts x = none := by
  by_contra hne
  have := hx.lock.2 (Option.isSome_iff_ne_none.2 hne)
  simp [hlock] at this

/-- What is written at an NFT that is free after it keeps the rest. -/
theorem coherent_of_free (hs : Coherent s) (hx : s'.lock x = false ∧ s'.listedNfts x = none)
    (hlock : ∀ z, z ≠ x → s'.lock z = s.lock z)
    (hlisted : ∀ z, z ≠ x → s'.listedNfts z = s.listedNfts z)
    (hnfts : ∀ z, z ≠ x → s'.nfts z = s.nfts z) (howner : ∀ z, z ≠ x → s'.owner z = s.owner z) :
    Coherent s' := by
  intro z
  by_cases hz : z = x
  · exact hz ▸ coherentAt_of_free hx.1 hx.2
  · exact (hs z).congr (hlock z hz) (hlisted z hz) (by rw [hnfts z hz]) (howner z hz)

theorem Minted.coherent {nft : NftInfo} (hsound : Sound s) (hs : Coherent s)
    (h : Minted x a nft s s') : Coherent s' := by
  have hx := h.absent hsound
  refine coherent_of_free hs (x := x) ⟨by rw [h.lock, hx.lock], by rw [h.listedNfts, hx.listedNfts]⟩
    (fun z _ => by rw [h.lock]) (fun z _ => by rw [h.listedNfts]) ?_ ?_
  · exact fun z hz => by rw [h.nfts, StorageMap.insert_of_ne hz]
  · exact fun z hz => by rw [h.owner, Function.update_of_ne hz]

theorem Sent.coherent {old new : AccountId} {newOwner : AccountIdOrCollectionNftTuple}
    {nft nft' : NftInfo} (hs : Coherent s) (h : Sent o x newOwner old new nft nft' s s')
    (hx : s'.lock x = false ∧ s'.listedNfts x = none) (hlock : ∀ z, z ≠ x → s'.lock z = s.lock z)
    (hlisted : ∀ z, z ≠ x → s'.listedNfts z = s.listedNfts z) : Coherent s' :=
  coherent_of_free hs hx hlock hlisted (fun z hz => by rw [h.nfts, StorageMap.insert_of_ne hz])
    fun z hz => by rw [h.owner, Function.update_of_ne hz]

/-- **A destruction keeps locks and listings coherent exactly if nothing
destroyed is listed.** -/
theorem Destroyed.coherent_iff {q : Option NftKey} (hs : Coherent s) (h : Destroyed x q s s')
    (howner : ∀ z, z ≠ x → s'.owner z = s.owner z) :
    Coherent s' ↔ ∀ y, Below s x y → s.listedNfts y = none := by
  constructor
  · intro hs' y hy
    by_contra hne
    obtain ⟨info, hinfo⟩ := Option.ne_none_iff_exists'.1 hne
    have := ((hs' y).listed info (by rw [h.listedNfts, hinfo])).1
    simp [h.nfts_below y hy] at this
  · intro hc z
    by_cases hz : Below s x z
    · have hfree : s.lock z = false := by
        have := (hs z).lock
        simpa [hc z hz] using this
      exact coherentAt_of_free (by rw [h.lock, hfree]) (by rw [h.listedNfts, hc z hz])
    · have hzx : z ≠ x := by rintro rfl; exact hz .refl
      exact (hs z).congr (by rw [h.lock]) (by rw [h.listedNfts]) (by rw [h.nfts_else z hz])
        (howner z hzx)

/-- **One step keeps locks and listings coherent exactly if it meets the
condition.** -/
theorem coherent_step (hsound : Sound s) (hs : Coherent s) (hstep : Step s act s') :
    Coherent s' ↔ SparesListed s act := by
  have hsame : SameListings s s' → (∀ z, s'.nfts z = none ↔ s.nfts z = none) →
      s'.owner = s.owner → Coherent s' := fun hl hn ho z =>
    (hs z).congr (by rw [hl.lock]) (by rw [hl.listedNfts]) (hn z) (by rw [ho])
  cases hstep.outcome with
  | silent hstill h =>
      exact iff_of_true (hsame h.toSameListings (fun z => by rw [h.nfts]) h.owner)
        (sparesListed_of_still hstill)
  | noted hstill h =>
      exact iff_of_true (hsame h.toSameListings (fun z => by rw [h.nfts]) h.owner)
        (sparesListed_of_still hstill)
  | mintNft _ _ h => exact iff_of_true (h.coherent hsound hs) trivial
  | mintNftDirectlyToNft _ _ _ h => exact iff_of_true (h.coherent hsound hs) trivial
  | @send o x _ _ _ _ _ h hlock hlist =>
      refine iff_of_true (h.coherent hs ⟨by rw [hlist.lock, hlock], ?_⟩
        (fun z _ => by rw [hlist.lock]) fun z _ => by rw [hlist.listedNfts]) trivial
      rw [hlist.listedNfts, (hs x).listed_of_unlocked hlock]
  | @acceptNft o x _ _ _ h =>
      refine iff_of_true (coherent_of_free hs (x := x) ⟨by rw [h.lock, h.unlocked], ?_⟩
        (fun z _ => by rw [h.lock]) (fun z _ => by rw [h.listedNfts]) ?_ ?_) trivial
      · rw [h.listedNfts, (hs x).listed_of_unlocked h.unlocked]
      · exact fun z hz => by rw [h.nfts, StorageMap.insert_of_ne hz]
      · exact fun z hz => by rw [h.owner, Function.update_of_ne hz]
  | burnNft _ h howner =>
      exact h.coherent_iff hs fun z hz => by rw [howner, Function.update_of_ne hz]
  | rejectNft _ _ h howner => exact h.coherent_iff hs fun z _ => by rw [howner]
  | unequip h =>
      exact iff_of_true (hsame h.toSameListings (fun z => by
        rw [h.nfts, StorageMap.mutate_eq_none_iff]) h.owner) trivial
  | equip h =>
      exact iff_of_true (hsame h.toSameListings (fun z => by
        rw [h.nfts, StorageMap.mutate_eq_none_iff]) h.owner) trivial
  | @list o x v e nft howner _ hnft h =>
      refine iff_of_true (fun z => ?_) trivial
      by_cases hz : z = x
      · subst hz
        refine ⟨by simp [h.lock, h.listedNfts], fun info hinfo => ?_⟩
        rw [h.listedNfts, Function.update_self, Option.some.injEq] at hinfo
        rw [h.nfts, hnft, h.owner, howner, ← hinfo]
        exact ⟨rfl, rfl⟩
      · exact (hs z).congr (by rw [h.lock, Function.update_of_ne hz])
          (by rw [h.listedNfts, Function.update_of_ne hz]) (by rw [h.nfts]) (by rw [h.owner])
  | @unlist o x _ h =>
      exact iff_of_true (coherent_of_free hs (x := x) ⟨by simp [h.lock], by simp [h.listedNfts]⟩
        (fun z hz => by rw [h.lock, Function.update_of_ne hz])
        (fun z hz => by rw [h.listedNfts, Function.update_of_ne hz])
        (fun z _ => by rw [h.nfts]) fun z _ => by rw [h.owner]) trivial
  | buy _ _ _ h hlock hlisted =>
      exact iff_of_true (h.coherent hs ⟨by simp [hlock], by simp [hlisted]⟩
        (fun z hz => by rw [hlock, Function.update_of_ne hz])
        fun z hz => by rw [hlisted, StorageMap.remove_of_ne hz]) trivial
  | @acceptOffer o offerer x offer nft nft' _ h _ hlock hlisted =>
      change _ ↔ s.listedNfts x = none
      constructor
      · intro hs'
        rw [← hlisted]
        exact (hs' x).listed_of_unlocked (by simp [hlock])
      · intro hx
        exact h.coherent hs ⟨by simp [hlock], by rw [hlisted, hx]⟩
          (fun z hz => by rw [hlock, Function.update_of_ne hz]) fun z _ => by rw [hlisted]

theorem coherent_genesis (h : Genesis s) : Coherent s := by
  obtain ⟨w, -, -, rfl⟩ := h
  exact fun x => coherentAt_of_free rfl rfl

/-- **Locks and listings over a run.** They are coherent in all its states
exactly if nothing listed is burned, rejected or sold to an offer in
it. -/
theorem coherent_throughout_iff (hr : IsRun h s) :
    Run.Throughout Coherent h s ↔ ∀ e ∈ h, SparesListed e.1 e.2 :=
  Run.throughout_iff (fun _ => coherent_genesis)
    (fun _ _ _ hreach hs hstep => coherent_step (Reachable.sound hreach) hs hstep) hr

namespace Mock

/-- Alice lists an NFT, and accepts Bob's offer for it. -/
def soldToOffer : List Extrinsic :=
  [(alice, .acceptOffer (0, 0) bob), (bob, .makeOffer (0, 0) 60 none),
    (alice, .list (0, 0) 100 none), (alice, mintTo alice), (alice, newCollection)]

/-- **Alice's listing of Bob's NFT.** -/
theorem not_coherent_of_reachable : ¬ ∀ s : State Storage, Reachable s → Coherent s := by
  intro hall
  have hs := hall (replay soldToOffer) (reachable_replay (by decide +kernel)) (0, 0)
  have hlock : (replay soldToOffer).lock (0, 0) = false := by decide +kernel
  have hlisted : ((replay soldToOffer).listedNfts (0, 0)).isSome = true := by decide +kernel
  simp [hs.listed_of_unlocked hlock] at hlisted

/-- Alice lists an NFT, and Bob buys it. -/
def soldToBuyer : List Extrinsic :=
  [(bob, .buy (0, 0) (some 100)), (alice, .list (0, 0) 100 none),
    (alice, mintTo alice), (alice, newCollection)]

theorem coherent_soldToBuyer :
    Run.Throughout Coherent (history soldToBuyer) (replay soldToBuyer) := by
  refine (coherent_throughout_iff (isRun_replay (by decide +kernel))).2 ?_
  simp only [soldToBuyer, history, List.forall_mem_cons, List.not_mem_nil, false_imp_iff,
    implies_true, and_true]
  exact ⟨trivial, trivial, trivial, trivial⟩

end Mock

/-! ## What is locked is left alone -/

/-- There is nothing of an NFT left to burn. -/
def Bare (s : State W) (x : NftKey) : Prop :=
  s.nfts x = none ∧ ∀ r, s.resources (x, r) = none

/-- **A call signed by `o` does nothing to `x` that is not done to what is
locked**: it does not burn or reject it, directly or through the index,
and it does not accept or remove a resource of it. Asking again for a
removal that has been asked for is nothing. -/
def LeavesAlone (s : State W) (x : NftKey) (o : AccountId) : Call W → Prop
  | .burnNft y _ => Below s y x → x ≠ y ∧ Bare s x
  | .rejectNft y => Below s y x → Bare s x
  | .acceptResource y _ => y ≠ x
  | .acceptResourceRemoval y _ => y ≠ x
  | .removeResource y r => y = x → ¬ RootOwner s x o ∧
      ∀ res, s.resources (x, r) = some res → res.pendingRemoval = true
  | _ => True

/-- The calls that look at the lock, or at no NFT there is. -/
def Call.heedsLock : Call W → Bool
  | .burnNft .. | .rejectNft .. | .acceptResource .. | .removeResource ..
  | .acceptResourceRemoval .. => false
  | _ => true

/-- **A lock that is looked at is kept.** -/
theorem undisturbed_of_heedsLock {call : Call W} (hs : Sound s) (hx : s.lock x = true)
    (hpallet : call.pallet ≠ .market) (hheeds : call.heedsLock = true)
    (h : Outcome s s' (.signed o call)) : Undisturbed x s s' := by
  have hne : ∀ y, s.lock y = false → x ≠ y := by
    rintro y hy rfl
    simp [hx] at hy
  cases h with
  | silent _ h => exact .of_quiet h.toQuiet (h.notes x)
  | @noted _ _ y _ h _ hlock =>
      refine .of_quiet h.toQuiet (h.notes x (hne y (hlock.resolve_right fun hun => ?_)))
      cases call <;> simp [Call.heedsLock, Call.unguarded] at hheeds hun
  | mintNft _ _ h =>
      have hxy := hne _ (h.absent hs).lock
      exact .of_put hxy h.owner h.nfts (h.notes x hxy)
  | mintNftDirectlyToNft _ _ _ h =>
      have hxy := hne _ (h.absent hs).lock
      exact .of_put hxy h.owner h.nfts (h.notes x hxy)
  | send h hlock => exact .of_put (hne _ hlock) h.owner h.nfts (h.notes x)
  | acceptNft h => exact .of_put (hne _ h.unlocked) h.owner h.nfts (h.notes x)
  | unequip h => exact .of_wired (hne _ h.unlocked) h
  | equip h => exact .of_wired (hne _ h.unlocked) h
  | burnNft | rejectNft => simp [Call.heedsLock] at hheeds
  | list | unlist | buy | acceptOffer => simp [Call.pallet] at hpallet

/-- What is destroyed is disturbed, unless there is nothing of it. -/
theorem Destroyed.undisturbed {q : Option NftKey} (h : Destroyed y q s s')
    (howner : s'.owner x = s.owner x) : Undisturbed x s s' ↔ (Below s y x → Bare s x) := by
  constructor
  · intro hu hb
    refine ⟨hu.nfts ▸ h.nfts_below x hb, fun r => ?_⟩
    rw [← hu.resources r]
    exact h.resources_below x hb r
  · intro hc
    by_cases hb : Below s y x
    · obtain ⟨hnft, hres⟩ := hc hb
      refine ⟨⟨fun r => ?_, fun r => by rw [h.priorities], fun k => by rw [h.properties]⟩, ?_,
        howner⟩
      · rw [h.resources_below x hb r, hres r]
      · rw [h.nfts_below x hb, hnft]
    · exact .of_destroyed h hb howner

/-- What is burned loses its owner, and what is burned with it all the
rest. -/
theorem undisturbed_of_burnNft {k : UInt32} {u : Unit} (h : Core.burnNft o y k s = .ok u s') :
    Undisturbed x s s' ↔ (Below s y x → x ≠ y ∧ Bare s x) := by
  obtain ⟨hroot, h, howner⟩ := Core.burnNft_ok h
  by_cases hxy : x = y
  · -- the owner goes
    subst hxy
    refine iff_of_false (fun hu => ?_) fun hc => (hc .refl).1 rfl
    have := hroot.owner_isSome
    rw [← hu.owner, howner, Function.update_self] at this
    simp at this
  · rw [h.undisturbed (by rw [howner, Function.update_of_ne hxy])]
    simp [hxy]

/-- To remove a resource of somebody else's NFT is to ask for it, which
has been asked for or has not. -/
theorem undisturbed_of_removeResource {r : ResourceId} {u : Unit}
    (h : Core.removeResource o x r s = .ok u s') :
    Undisturbed x s s' ↔ ¬ RootOwner s x o ∧
      ∀ res, s.resources (x, r) = some res → res.pendingRemoval = true := by
  obtain ⟨-, ⟨res, hres, hmine, hasked⟩, -⟩ := Core.removeResource_ok h
  constructor
  · intro hu
    have hno : ¬ RootOwner s x o := by
      intro hroot
      have := hmine hroot
      simp [hu.resources r, hres] at this
    refine ⟨hno, fun res' hres' => ?_⟩
    obtain rfl := Option.some.inj (hres.symm.trans hres')
    have hsame := hu.resources r
    rw [hasked hno] at hsame
    simp only [StorageMap.mutate_self, hres, Option.map_some, Option.some.injEq] at hsame
    rw [← hsame]
  · rintro ⟨hno, hpending⟩
    have hs' := hasked hno
    subst hs'
    refine ⟨⟨fun r' => ?_, fun _ => rfl, fun _ => rfl⟩, rfl, rfl⟩
    simp only [StorageMap.mutate_apply]
    split
    · next hr =>
        -- the flag is up already
        rw [hr, hres, Option.map_some, Option.some.injEq]
        have hp := hpending res hres
        cases res
        simp_all
    · rfl

/-- **A locked NFT.** A call of `rmrk-core` or `rmrk-equip` leaves it as it
was exactly if it does nothing to it that no lock stands in the way
of. -/
theorem undisturbed_iff {call : Call W} (hr : Reachable s) (hx : s.lock x = true)
    (hpallet : call.pallet ≠ .market) (hstep : Step s (.signed o call) s') :
    Undisturbed x s s' ↔ LeavesAlone s x o call := by
  cases call with
  | burnNft y k => exact undisturbed_of_burnNft hstep
  | rejectNft y =>
      obtain ⟨-, -, h, howner⟩ := Core.rejectNft_ok hstep
      exact h.undisturbed (by rw [howner])
  | acceptResource y r =>
      obtain ⟨-, ⟨res, hres, hpending, hres'⟩, h⟩ := Core.acceptResource_ok hstep
      refine ⟨?_, h.undisturbed⟩
      rintro hu rfl
      rw [hu.resources r, hres, Option.some.injEq] at hres'
      rw [hres'] at hpending
      simp at hpending
  | removeResource y r =>
      change _ ↔ (y = x → _)
      by_cases hyx : y = x
      · subst hyx
        rw [undisturbed_of_removeResource hstep]
        exact ⟨fun hc _ => hc, fun hc => hc rfl⟩
      · obtain ⟨-, -, h⟩ := Core.removeResource_ok hstep
        exact iff_of_true (h.undisturbed hyx) fun heq => absurd heq hyx
  | acceptResourceRemoval y r =>
      obtain ⟨-, ⟨res, hres, hres'⟩, h⟩ := Core.acceptResourceRemoval_ok hstep
      refine ⟨?_, h.undisturbed⟩
      rintro hu rfl
      simp [hu.resources r, hres] at hres'
  | _ =>
      exact iff_of_true
        (undisturbed_of_heedsLock (Reachable.sound hr) hx hpallet rfl hstep.outcome) trivial

namespace Mock

/-- Alice lists an NFT. -/
def listed : List Extrinsic :=
  [(alice, .list (0, 0) 100 none), (alice, mintTo alice), (alice, newCollection)]

/-- **She burns it while it is locked.** -/
theorem not_undisturbed_of_locked :
    ¬ ∀ (s s' : State Storage) (x : NftKey) (o : AccountId) (call : Call Storage), Reachable s →
      s.lock x = true → call.pallet ≠ .market → Step s (.signed o call) s' →
        Undisturbed x s s' := by
  intro hall
  have hburn : returns (alice, .burnNft (0, 0) 10) (replay listed) = true := by decide +kernel
  have hu := hall _ _ (0, 0) alice _ (reachable_replay (by decide +kernel)) (by decide +kernel)
    (by decide) (step_apply hburn)
  have howner : (replay listed).owner (0, 0) = some alice := by decide +kernel
  have hgone : (apply (alice, .burnNft (0, 0) 10) (replay listed)).owner (0, 0) = none := by
    decide +kernel
  simp [← hu.owner, hgone] at howner

/-- She mints another and burns that one. -/
theorem undisturbed_listed :
    Undisturbed (0, 0) (replay ((alice, mintTo alice) :: listed))
      (apply (alice, .burnNft (0, 1) 10) (replay ((alice, mintTo alice) :: listed))) := by
  have hempty : (replay ((alice, mintTo alice) :: listed)).children (0, 1) = ∅ := by
    decide +kernel
  have hbelow : ¬ Below (replay ((alice, mintTo alice) :: listed)) (0, 1) (0, 0) := by
    intro hb
    exact absurd (eq_of_below hempty hb) (by decide)
  exact (undisturbed_iff (reachable_replay (by decide +kernel)) (by decide +kernel) (by decide)
    (step_apply (by decide +kernel))).2 fun hb => absurd hb hbelow

end Mock

end Rmrk
