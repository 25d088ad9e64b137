import Rmrk.Helpers.Issued
import Rmrk.Properties.Reroot
/-!
# When an NFT can be moved

What `send` and `accept_nft` ask for, no more and no less, whatever the
NFT is in and whatever it is sent to; in `pallet_uniques` nothing is
frozen. And the handshake the two make up comes to its end: what has been
sent to an NFT its root owner can accept where it is.
-/

namespace Rmrk

open Relation Pointer Effect

variable {W : Type} [Config W] {s s' : State W} {act : Act W} {x p : NftKey} {o a b : AccountId}
variable {t : AccountIdOrCollectionNftTuple}

/-! ## The property -/

/-- **`x` can be sent to `t`**: to any account, and to an NFT that is there,
has a root owner and is not in `x`. -/
def Receives (s : State W) (x : NftKey) : AccountIdOrCollectionNftTuple → Prop
  | .accountId _ => True
  | .collectionAndNftTuple cid nid => (s.nfts (cid, nid)).isSome = true ∧
      ¬ Reaches s.parent (cid, nid) x ∧ ∃ b, RootOwner s (cid, nid) b

/-- **What `send` asks for.** -/
structure Sends (s : State W) (o : AccountId) (x : NftKey) (t : AccountIdOrCollectionNftTuple) :
    Prop where
  root : RootOwner s x o
  record : ∃ nft, s.nfts x = some nft ∧ nft.transferable = true ∧ nft.equipped = false
  unlocked : s.lock x = false
  target : Receives s x t

/-- **What `accept_nft` asks for**: nothing of the record but that it is
there, and of an NFT that it is the signer's at the root. -/
structure Accepts (s : State W) (o : AccountId) (x : NftKey) (t : AccountIdOrCollectionNftTuple) :
    Prop where
  root : RootOwner s x o
  record : (s.nfts x).isSome = true
  unlocked : s.lock x = false
  target : Receives s x t
  approved : ¬ ApprovalRequired s o t

/-! ## The checks -/

/-- Where the lookup of a root owner returns, so does the descendant
check. -/
theorem exists_descendent {y : NftKey} {r : Except Core.Error (AccountId × NftKey)}
    (h : Walk.Returns (lookupStep s) p r) : ∃ d, Walk.Returns (descendentStep s y) p d := by
  induction h with
  | @here p r hp =>
      refine ⟨false, .here ?_⟩
      unfold lookupStep at hp
      unfold descendentStep
      cases howner : s.owner p with
      | none => rfl
      | some owner =>
          rw [howner] at hp
          cases hd : decodeNftAccountId owner with
          | none => simp [hd]
          | some z => simp [hd] at hp
  | @call p q r hp _ ih =>
      have hparent : s.parent p = some q := by
        rw [← next_lookupStep]
        exact Walk.next_eq_some_iff.2 hp
      have hstep : descendentStep s y p = if q = y then .inl true else .inr q := by
        rw [descendentStep_eq, hparent]
      by_cases hq : q = y
      · exact ⟨true, .here (by rw [hstep, if_pos hq])⟩
      · obtain ⟨d, hd⟩ := ih
        exact ⟨d, .call (by rw [hstep, if_neg hq]) hd⟩

namespace Core

/-- A target that is not the NFT sent, nor in it, passes. -/
theorem checkTarget_returns (hp : (s.nfts p).isSome = true) (hnot : ¬ Reaches s.parent p x)
    (hroot : RootOwner s p b) : checkTarget x p s = .ok b s := by
  obtain ⟨root, hroot⟩ := hroot
  have hlookup : lookupRootOwner p s = .ok (b, root) s := lookupRootOwner_ok.2 ⟨hroot, rfl⟩
  obtain ⟨d, hd⟩ := exists_descendent (y := x) hroot
  have hbelow : isXDescendentOfY p x s = .ok d s := isXDescendentOfY_ok.2 ⟨hd, rfl⟩
  have hne : x ≠ p := fun heq => hnot (heq ▸ .refl)
  obtain rfl : d = false := by
    cases d with
    | false => rfl
    | true => exact absurd (transGen_of_descendent hd).to_reflTransGen hnot
  rw [checkTarget, get_bind, ensure_of hp, ensure_of hne]
  simp only [pure_bind]
  rw [bind_of_ok hbelow, ensure_of rfl, pure_bind, bind_of_ok hlookup]
  rfl

theorem sendTarget_returns (h : Receives s x t) : ∃ r, sendTarget x o t s = .ok r s := by
  cases t with
  | accountId id => exact ⟨(id, false), rfl⟩
  | collectionAndNftTuple cid nid =>
      obtain ⟨hp, hnot, b, hroot⟩ := h
      refine ⟨(nftToAccountId (cid, nid), decide (b ≠ o)), ?_⟩
      rw [sendTarget, bind_of_ok (checkTarget_returns hp hnot hroot)]
      rfl

theorem acceptTarget_returns (h : Receives s x t) (hap : ¬ ApprovalRequired s o t) :
    ∃ a, acceptTarget x o t s = .ok a s := by
  cases t with
  | accountId id => exact ⟨id, rfl⟩
  | collectionAndNftTuple cid nid =>
      obtain ⟨hp, hnot, -⟩ := h
      refine ⟨nftToAccountId (cid, nid), ?_⟩
      rw [acceptTarget, bind_of_ok (checkTarget_returns hp hnot (not_not.1 hap)), ensure_of rfl]
      rfl

omit [Config W] in
theorem recordSend_returns (x : NftKey) (nft : NftInfo) (ap : Bool) (s : State W) :
    ∃ nfts, recordSend x nft ap s = .ok () { s with nfts } := by
  cases ap <;> exact ⟨_, rfl⟩

/-- What has been sent names a target that receives it. -/
theorem receives_of_send (h : send o x t s = .ok () s') : Receives s x t := by
  obtain ⟨old, new, nft, nft', hsent, -⟩ := send_ok h
  cases t with
  | accountId id => trivial
  | collectionAndNftTuple cid nid => exact ⟨hsent.target.2.1, hsent.target.2.2, send_target h⟩

/-- What has been sent met what `send` asks for. -/
theorem sends_of_send (h : send o x t s = .ok () s') : Sends s o x t := by
  obtain ⟨old, new, nft, nft', hsent, hlock, -⟩ := send_ok h
  exact ⟨hsent.root, ⟨nft, hsent.nfts_eq, hsent.transferable, hsent.equipped⟩, hlock,
    receives_of_send h⟩

/-- And what has been accepted what `accept_nft` asks for. -/
theorem accepts_of_acceptNft (h : acceptNft o x t s = .ok () s') : Accepts s o x t := by
  obtain ⟨new, nft, haccepted⟩ := acceptNft_ok h
  refine ⟨haccepted.root, by simp [haccepted.nfts_eq], haccepted.unlocked, ?_,
    haccepted.approved⟩
  cases t with
  | accountId id => trivial
  | collectionAndNftTuple cid nid =>
      exact ⟨haccepted.target.2.1, haccepted.target.2.2, o, not_not.1 haccepted.approved⟩

end Core

section Transfers

variable [Transfers W]

theorem Core.send_of_sends (h : Sends s o x t) : ∃ s', send o x t s = .ok () s' := by
  obtain ⟨root, hroot⟩ := h.root
  obtain ⟨old, hold⟩ := Option.isSome_iff_exists.1 h.root.owner_isSome
  obtain ⟨nft, hnft, htr, heq⟩ := h.record
  obtain ⟨⟨new, ap⟩, htarget⟩ := sendTarget_returns (o := o) h.target
  obtain ⟨nfts, hrec⟩ := recordSend_returns x { nft with owner := t } ap s
  obtain ⟨s₂, hlink⟩ := relinkChild_returns x old new { s with nfts }
  obtain ⟨children, rfl, -⟩ := relinkChild_ok hlink
  obtain ⟨w, hw⟩ := Transfers.doTransfer_ok (l := s.lock) (w := s.ext) (a := new) h.unlocked
    h.root.owner_isSome
  simp only [send, transactional_ok, nftSend, checkIsTransferable, checkIsNotEquipped, bind_assoc,
    get_bind_ok, okOr_bind_ok, lookupRootOwner_bind_ok, ensure_bind_ok]
  refine ⟨{ s with nfts, children, ext := w }, old, hold, o, root, hroot, rfl, nft, hnft, htr, heq,
    ?_⟩
  rw [bind_of_ok htarget, bind_of_ok hrec, bind_of_ok hlink, pure_bind, get_bind, external_ok]
  exact ⟨w, hw, rfl⟩

theorem Core.acceptNft_of_accepts (h : Accepts s o x t) :
    ∃ s', acceptNft o x t s = .ok () s' := by
  obtain ⟨root, hroot⟩ := h.root
  obtain ⟨nft, hnft⟩ := Option.isSome_iff_exists.1 h.record
  obtain ⟨new, htarget⟩ := acceptTarget_returns h.target h.approved
  obtain ⟨w, hw⟩ := Transfers.doTransfer_ok (l := s.lock) (w := s.ext) (a := new) h.unlocked
    h.root.owner_isSome
  simp only [acceptNft, transactional_ok, nftAccept, bind_assoc, get_bind_ok, okOr_bind_ok,
    lookupRootOwner_bind_ok, ensure_bind_ok]
  refine ⟨{ s with nfts := s.nfts.mutate x fun nft => { nft with pending := false }, ext := w },
    o, root, hroot, rfl, nft, hnft, ?_⟩
  rw [bind_of_ok htarget]
  simp only [update_bind_ok, pure_bind_ok, get_bind_ok, external_ok]
  exact ⟨w, hw, rfl⟩

/-- **When an NFT can be moved.** `send` and `accept_nft` go through
exactly where what they ask for is there, in every state. -/
theorem moves_iff (s : State W) :
    (∀ o x t, (∃ s', dispatch o (.send x t) s = .ok () s') ↔ Sends s o x t) ∧
      ∀ o x t, (∃ s', dispatch o (.acceptNft x t) s = .ok () s') ↔ Accepts s o x t := by
  constructor
  · intro o x t
    exact ⟨fun ⟨_, h⟩ => Core.sends_of_send h, Core.send_of_sends⟩
  · intro o x t
    exact ⟨fun ⟨_, h⟩ => Core.accepts_of_acceptNft h, Core.acceptNft_of_accepts⟩

/-! ## The handshake -/

omit [Transfers W] in
/-- A write of one owner, whose NFT is not locked, or has none then. -/
theorem unlocked_of_put {c : Option AccountId} (hs : ∀ y q, s.parent y = some q → s.lock y = false)
    (howner : s'.owner = Function.update s.owner x c)
    (hlock : ∀ y, s.lock y = false → s'.lock y = false)
    (hx : c = none ∨ s'.lock x = false) : ∀ y q, s'.parent y = some q → s'.lock y = false := by
  intro y q hq
  by_cases hy : y = x
  · rcases hx with rfl | hx
    · rw [hy, State.parent_update howner, Function.update_self] at hq
      cases hq
    · rw [hy]
      exact hx
  · rw [State.parent_update howner, Function.update_of_ne hy] at hq
    exact hlock y (hs y q hq)

omit [Transfers W] in
theorem unlocked_of_same (hs : ∀ y q, s.parent y = some q → s.lock y = false)
    (howner : s'.owner = s.owner) (hlock : s'.lock = s.lock) :
    ∀ y q, s'.parent y = some q → s'.lock y = false := by
  intro y q hq
  rw [State.parent_congr howner] at hq
  rw [hlock]
  exact hs y q hq

omit [Transfers W] in
/-- **What is in an NFT is not locked**: it could not have been listed, nor
sent there. -/
theorem Reachable.unlocked (hr : Reachable s) (hparent : s.parent x = some p) :
    s.lock x = false := by
  refine hr.invariant (P := fun s => ∀ y q, s.parent y = some q → s.lock y = false)
    (fun s h0 => ?_) (fun s act s' hr hs hstep => ?_) x p hparent
  · obtain ⟨w, -, -, rfl⟩ := h0
    exact fun _ _ _ => rfl
  · have hsound := Reachable.sound hr
    have hclear : ∀ {z : NftKey}, s'.lock = Function.update s.lock z false →
        (∀ y, s.lock y = false → s'.lock y = false) ∧ s'.lock z = false := by
      intro z hz
      refine ⟨fun y hy => ?_, by rw [hz, Function.update_self]⟩
      rw [hz]
      by_cases hyz : y = z
      · rw [hyz, Function.update_self]
      · rw [Function.update_of_ne hyz, hy]
    have hkept : s'.lock = s.lock → ∀ y, s.lock y = false → s'.lock y = false :=
      fun hlock y hy => by rw [hlock, hy]
    cases hstep.outcome with
    | silent _ h => exact unlocked_of_same hs h.owner h.lock
    | noted _ h => exact unlocked_of_same hs h.owner h.lock
    | mintNft _ _ h =>
        exact unlocked_of_put hs h.owner (hkept h.lock)
          (.inr (by rw [h.lock, (h.absent hsound).lock]))
    | mintNftDirectlyToNft _ _ _ h =>
        exact unlocked_of_put hs h.owner (hkept h.lock)
          (.inr (by rw [h.lock, (h.absent hsound).lock]))
    | send h hlock hlist =>
        exact unlocked_of_put hs h.owner (hkept hlist.lock) (.inr (by rw [hlist.lock, hlock]))
    | acceptNft h =>
        exact unlocked_of_put hs h.owner (hkept h.lock) (.inr (by rw [h.lock, h.unlocked]))
    | burnNft _ h howner => exact unlocked_of_put hs howner (hkept h.lock) (.inl rfl)
    | rejectNft _ _ h howner => exact unlocked_of_same hs howner h.lock
    | unequip h => exact unlocked_of_same hs h.owner h.lock
    | equip h => exact unlocked_of_same hs h.owner h.lock
    | @list o z _ _ _ _ hz _ h =>
        intro y q hq
        rw [State.parent_congr h.owner] at hq
        have hne : y ≠ z := by
          rintro rfl
          rw [hz] at hq
          cases hq
        rw [h.lock, Function.update_of_ne hne]
        exact hs y q hq
    | unlist _ h =>
        intro y q hq
        rw [State.parent_congr h.owner] at hq
        exact (hclear h.lock).1 y (hs y q hq)
    | buy _ _ _ h hlock =>
        exact unlocked_of_put hs h.owner (hclear hlock).1 (.inr (hclear hlock).2)
    | acceptOffer _ h _ hlock =>
        exact unlocked_of_put hs h.owner (hclear hlock).1 (.inr (hclear hlock).2)

/-- **`x` has been accepted where it is.** -/
structure AcceptedInPlace (x : NftKey) (s s' : State W) : Prop where
  owner : s'.owner = s.owner
  record : ∃ nft, s.nfts x = some nft ∧ s'.nfts = s.nfts.insert x { nft with pending := false }

/-- An NFT that is in another can be accepted there by its root owner
exactly if both are there. -/
theorem accepted_in_place_iff (hr : Reachable s) (hparent : s.parent x = some p)
    (hroot : RootOwner s x b) :
    (∃ s', dispatch b (.acceptNft x (.collectionAndNftTuple p.1 p.2)) s = .ok () s' ∧
        AcceptedInPlace x s s') ↔
      (s.nfts x).isSome = true ∧ (s.nfts p).isSome = true := by
  constructor
  · rintro ⟨s', h, -⟩
    have hacc : Accepts s b x _ := Core.accepts_of_acceptNft h
    exact ⟨hacc.record, hacc.target.1⟩
  · rintro ⟨hx, hp⟩
    have hpb : RootOwner s p b := (rootOwner_of_parent hparent).1 hroot
    -- the way up from `x` ends, so it does not come back
    have hnot : ¬ Reaches s.parent p x := fun hpx => hroot.not_transGen (.head' hparent hpx)
    have hacc : Accepts s b x (.collectionAndNftTuple p.1 p.2) :=
      ⟨hroot, hx, hr.unlocked hparent, ⟨hp, hnot, b, hpb⟩, not_not.2 hpb⟩
    obtain ⟨s', h⟩ := Core.acceptNft_of_accepts hacc
    obtain ⟨new, nft, haccepted⟩ := Core.acceptNft_ok h
    refine ⟨s', h, ?_, nft, haccepted.nfts_eq, haccepted.nfts⟩
    rw [haccepted.owner, ← haccepted.target.account]
    exact Function.update_eq_self_iff.2 (State.parent_eq_some_iff.1 hparent).symm

/-- **The handshake comes to its end.** In every reachable state what is in
an NFT can be accepted there by its root owner exactly if both are there;
and what has just been sent to one is, by the root owner of that one. -/
theorem handshake (hr : Reachable s) :
    (∀ x p b, s.parent x = some p → RootOwner s x b →
      ((∃ s', dispatch b (.acceptNft x (.collectionAndNftTuple p.1 p.2)) s = .ok () s' ∧
          AcceptedInPlace x s s') ↔
        (s.nfts x).isSome = true ∧ (s.nfts p).isSome = true)) ∧
    ∀ o x p s', Step s (.signed o (.send x (.collectionAndNftTuple p.1 p.2))) s' →
      ∃ b s'', RootOwner s p b ∧
        Step s' (.signed b (.acceptNft x (.collectionAndNftTuple p.1 p.2))) s'' ∧
          AcceptedInPlace x s' s'' := by
  refine ⟨fun x p b hparent hroot => accepted_in_place_iff hr hparent hroot,
    fun o x p s' hstep => ?_⟩
  obtain ⟨h, hrun⟩ := hr
  have hr' : Reachable s' := (hrun.step hstep).reachable
  obtain ⟨old, new, nft, nft', hsent, -⟩ := Core.send_ok hstep
  obtain ⟨rfl, hp, hnot⟩ := hsent.target
  obtain ⟨b, hb⟩ := Core.send_target hstep
  have hparent : s'.parent x = some p := by
    rw [State.parent_eq_some_iff, hsent.owner, Function.update_self]
  have hroot : RootOwner s' x b :=
    (rootOwner_of_parent hparent).2 ((rootOwner_update hsent.owner hnot).2 hb)
  have hx : (s'.nfts x).isSome = true := by rw [hsent.nfts, StorageMap.insert_self]; rfl
  have hp' : (s'.nfts p).isSome = true := by
    have hne : p ≠ x := fun heq => hnot (heq ▸ .refl)
    rw [hsent.nfts, StorageMap.insert_of_ne hne]
    exact hp
  obtain ⟨s'', haccept⟩ := (accepted_in_place_iff hr' hparent hroot).2 ⟨hx, hp'⟩
  exact ⟨b, s'', hb, haccept⟩

end Transfers

namespace Mock

/-- Alice has an NFT, and Bob one that she has minted for him. -/
def oneForBob : List Extrinsic :=
  [(alice, mintTo bob), (alice, mintTo alice), (alice, newCollection)]

/-- **Alice can send hers to his.** -/
theorem moves_oneForBob : ∃ s', dispatch alice (.send (0, 0) (.collectionAndNftTuple 0 1))
    (replay oneForBob) = .ok () s' := by
  have hbob : (replay oneForBob).owner (0, 1) = some bob := by decide +kernel
  have hordinary : decodeNftAccountId bob = none := by decide +kernel
  have halice : (replay oneForBob).owner (0, 0) = some alice := by decide +kernel
  have hordinary' : decodeNftAccountId alice = none := by decide +kernel
  refine ((moves_iff (replay oneForBob)).1 alice (0, 0) (.collectionAndNftTuple 0 1)).2
    ⟨(rootOwner_of_owner halice hordinary').2 rfl, ?_, by decide +kernel, by decide +kernel,
      fun hreach => ?_, bob, (rootOwner_of_owner hbob hordinary).2 rfl⟩
  · refine ⟨((replay oneForBob).nfts (0, 0)).get (by decide +kernel), ?_, ?_, ?_⟩
    · exact (Option.some_get _).symm
    · decide +kernel
    · decide +kernel
  · -- Bob's is in no NFT
    have hnone : (replay oneForBob).parent (0, 1) = none := by
      rw [State.parent_of_owner hbob, hordinary]
    rcases Relation.ReflTransGen.cases_head hreach with heq | ⟨q, hq, -⟩
    · cases heq
    · cases hnone.symm.trans hq

/-- **Bob takes what Alice sends to his NFT**, where it is. -/
theorem handshake_oneForBob : ∃ b s'', RootOwner (replay oneForBob) (0, 1) b ∧
    Step (apply (alice, .send (0, 0) (.collectionAndNftTuple 0 1)) (replay oneForBob))
      (.signed b (.acceptNft (0, 0) (.collectionAndNftTuple 0 1))) s'' ∧
    AcceptedInPlace (0, 0)
      (apply (alice, .send (0, 0) (.collectionAndNftTuple 0 1)) (replay oneForBob)) s'' :=
  (handshake (reachable_replay (by decide +kernel))).2 alice (0, 0) (0, 1) _
    (step_apply (e := (alice, .send (0, 0) (.collectionAndNftTuple 0 1))) (by decide +kernel))

end Mock

end Rmrk
