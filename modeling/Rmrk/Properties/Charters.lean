import Rmrk.Helpers.Issued
import Rmrk.Helpers.Register
import Rmrk.Mock.Replay
/-!
# Two ledgers of collections

`rmrk-core` keeps a record of each collection, with its issuer, and
`pallet_uniques` the collection, with its owner. Minting asks the one and
the rest the other, so they have to agree: there is a record exactly
where there is a collection, and its issuer is the owner. An NFT has its
collection as long as it is there, so none is left in a collection that
is destroyed.
-/

namespace Rmrk

open Effect

variable {W : Type} [Config W] {s s' : State W} {act : Act W} {o : AccountId} {c : CollectionId}

/-- Who owns a collection in `pallet_uniques`. -/
def State.collectionOwner (s : State W) : CollectionId → Option AccountId :=
  Uniques.collectionOwner s.ext

/-- **The ledgers of collections agree.** -/
structure Chartered (s : State W) : Prop where
  owner : ∀ c, s.collectionOwner c = s.issuer c
  home : ∀ x, (s.nfts x).isSome = true → (s.collections x.1).isSome = true

/-! ## The calls that keep the owners -/

/-- The extrinsics that write who owns a collection. -/
def Call.charters : Call W → Bool
  | .createCollection .. | .destroyCollection .. | .changeCollectionIssuer .. => true
  | _ => false

/-- The steps that do. -/
def Act.charters : Act W → Bool
  | .signed _ call => call.charters
  | .between .. => false

/-! ## Writing the two ledgers -/

/-- The ledgers agree after a step that found and leaves each collection
with its owner, where every NFT that is new has its collection. -/
theorem Chartered.congr (hs : Chartered s) (howner : s'.collectionOwner = s.collectionOwner)
    (hissuer : s'.issuer = s.issuer)
    (hnfts : ∀ x, (s'.nfts x).isSome = true → (s.nfts x).isSome = true ∨
      (s.collections x.1).isSome = true) : Chartered s' where
  owner c := by rw [howner, hissuer, hs.owner]
  home x hx := by
    rw [← isSome_issuer, hissuer, isSome_issuer]
    exact (hnfts x hx).elim (hs.home x) id

/-- So do they after a step that writes one of them in both ledgers, and
destroys none that has an NFT. -/
theorem Chartered.update {a : Option AccountId} (hs : Chartered s)
    (howner : s'.collectionOwner = Function.update s.collectionOwner c a)
    (hissuer : s'.issuer = Function.update s.issuer c a) (hnfts : s'.nfts = s.nfts)
    (hempty : a = none → ∀ n, s.nfts (c, n) = none) : Chartered s' where
  owner d := by rw [howner, hissuer, funext hs.owner]
  home x hx := by
    rw [hnfts] at hx
    rw [← isSome_issuer, hissuer]
    by_cases hc : x.1 = c
    · rw [hc, Function.update_self, Option.isSome_iff_ne_none]
      intro ha
      rw [show x = (c, x.2) from Prod.ext hc rfl, hempty ha] at hx
      cases hx
    · rw [Function.update_of_ne hc, isSome_issuer]
      exact hs.home x hx

/-- Only three calls change an issuer. -/
theorem Registered.sameIssuer (h : Registered s s' act) (hact : act.charters = false) :
    s'.issuer = s.issuer := by
  cases h with
  | same _ h => rw [State.issuer, h.collections, State.issuer]
  | minted _ h =>
      obtain ⟨col, hcol, -, -, hcols⟩ := h.collections
      rw [issuer_insert hcols, ← issuer_of_eq hcol, Function.update_eq_self]
  | created => simp [Act.charters, Call.charters] at hact
  | destroyed => simp [Act.charters, Call.charters] at hact
  | issuerChanged => simp [Act.charters, Call.charters] at hact
  | locked _ hcol hcols => rw [issuer_insert hcols, ← issuer_of_eq hcol, Function.update_eq_self]
  | burned _ h =>
      obtain ⟨l, -, hcount, -⟩ := h.tallied
      funext c
      rw [State.issuer, Function.comp_apply, hcount.collections, Option.map_map]
      rfl

/-- An NFT that is new is in a collection there is. -/
theorem Registered.home (h : Registered s s' act) {x : NftKey} (hx : (s'.nfts x).isSome = true) :
    (s.nfts x).isSome = true ∨ (s.collections x.1).isSome = true := by
  rcases h.split with ⟨c, -, h⟩ | ⟨-, h⟩ | ⟨y, -, h⟩ | ⟨-, h⟩
  · obtain ⟨nft, hnfts⟩ := h.nfts
    obtain ⟨col, hcol, -⟩ := h.collections
    by_cases hxc : x = (c, s.nextNftId c)
    · exact .inr (by simp [hxc, hcol])
    · rw [hnfts, StorageMap.insert_of_ne hxc] at hx
      exact .inl hx
  · rw [Option.isSome_iff_ne_none, ne_eq, h.presence.nfts, ← ne_eq,
      ← Option.isSome_iff_ne_none] at hx
    exact .inl hx
  · obtain ⟨l, hl, hcount, -⟩ := h.tallied
    by_cases hxl : x ∈ l
    · rw [h.nfts_below x (h.below (hl x hxl))] at hx
      cases hx
    · rw [hcount.nfts x hxl] at hx
      exact .inl hx
  · rw [Option.isSome_iff_ne_none, ne_eq, h.presence.nfts, ← ne_eq,
      ← Option.isSome_iff_ne_none] at hx
    exact .inl hx

section Owners

variable [CollectionOwners W]

open CollectionOwners

theorem dispatch_collectionOwner {call : Call W} (hcall : call.charters = false) :
    Within (Same State.collectionOwner) (dispatch o call) := by
  have hkeep : ∀ (s : State W) w, Uniques.collectionOwner w = Uniques.collectionOwner s.ext →
      Same State.collectionOwner s { s with ext := w } := fun _ _ h => h
  by_cases hnfts : call.ofNfts = true
  · refine Lax.dispatch ?_ hnfts
    constructor
    case doMint => exact fun s _ _ w hw => hkeep s w (collectionOwner_doMint hw)
    case doBurn => exact fun s _ w hw => hkeep s w (collectionOwner_doBurn hw)
    case toLoose =>
      constructor
      case doTransfer => exact fun s _ _ _ w hw => hkeep s w (collectionOwner_doTransfer hw)
      case transfer => exact fun s _ _ _ w hw => hkeep s w (collectionOwner_transfer hw)
      case reserve => exact fun s _ _ w hw => hkeep s w (collectionOwner_reserve hw)
      case unreserve => exact fun s _ _ => hkeep s _ collectionOwner_unreserve
      all_goals exact fun _ _ => rfl
    all_goals exact fun _ _ => rfl
  · cases call with
    | changeBaseIssuer => exact Equip.within_changeBaseIssuer fun _ _ => rfl
    | equippable => exact Equip.within_equippable fun _ _ => rfl
    | createBase => exact Equip.within_createBase (fun _ _ => rfl) (fun _ _ => rfl) fun _ _ => rfl
    | _ => first | exact absurd rfl hnfts | simp [Call.charters] at hcall

theorem Step.sameCollectionOwner (hstep : Step s act s') (hact : act.charters = false) :
    s'.collectionOwner = s.collectionOwner := by
  cases act with
  | between n w =>
      obtain ⟨-, hw, rfl⟩ := hstep
      exact collectionOwner_elsewhere hw
  | signed o call => exact dispatch_collectionOwner hact _ _ _ hstep

/-! ## One step -/

theorem Chartered.step (hsound : Sound s) (hs : Chartered s) (hstep : Step s act s') :
    Chartered s' := by
  by_cases hact : act.charters = false
  · exact hs.congr (hstep.sameCollectionOwner hact) (hstep.registered.sameIssuer hact)
      fun x => hstep.registered.home
  · cases act with
    | between => exact absurd rfl hact
    | signed o call =>
        have h : dispatch o call s = .ok () s' := hstep
        cases call with
        | createCollection =>
            obtain ⟨-, w, hw, rfl⟩ := Core.createCollection_writes h
            refine hs.update (collectionOwner_doCreateCollection hw) ?_ rfl nofun
            exact Function.comp_update _ _ _ _
        | destroyCollection =>
            obtain ⟨hitems, d, w, hw, rfl⟩ := Core.destroyCollection_writes h
            refine hs.update (collectionOwner_doDestroyCollection hw) ?_ rfl fun _ n =>
              hsound.owned _ (hitems n)
            exact Function.comp_update _ _ _ _
        | changeCollectionIssuer =>
            obtain ⟨col, a, w, hcol, -, hw, rfl⟩ := Core.changeCollectionIssuer_writes h
            refine hs.update (collectionOwner_transferOwnership hw) ?_ rfl nofun
            refine (Function.comp_update _ _ _ _).trans ?_
            rw [hcol]
            rfl
        | _ => exact absurd rfl hact

/-- **The ledgers of collections agree in every reachable state.** -/
theorem Reachable.chartered (h : Reachable s) : Chartered s := by
  refine h.invariant (fun s h0 => ?_) fun _ _ _ hr hs hstep =>
    hs.step (Reachable.sound hr) hstep
  obtain ⟨w, -, hcols, rfl⟩ := h0
  exact ⟨hcols, fun x hx => by simp [genesis] at hx⟩

/-- **The ledgers of collections.** In every reachable state there is a
record exactly of the collections there are, its issuer owns the
collection, and every NFT has its collection; what is destroyed has no
NFT. -/
theorem collections_agree (hr : Reachable s) :
    (∀ c, ((s.collections c).isSome = true ↔ (s.collectionOwner c).isSome = true) ∧
      ∀ col, s.collections c = some col → s.collectionOwner c = some col.issuer) ∧
    (∀ c n, (s.nfts (c, n)).isSome = true → (s.collections c).isSome = true) ∧
    ∀ o c s', Step s (.signed o (.destroyCollection c)) s' → ∀ n, s.nfts (c, n) = none := by
  have hs := Reachable.chartered hr
  refine ⟨fun c => ⟨?_, fun col hcol => ?_⟩, fun c n hx => hs.home (c, n) hx, ?_⟩
  · rw [hs.owner, isSome_issuer]
  · rw [hs.owner, issuer_of_eq hcol]
  · intro o c s' hstep n
    exact (Reachable.sound hr).owned (c, n) ((Core.destroyCollection_writes hstep).1 n)

end Owners

/-! ## A collection that changes hands -/

namespace Mock

/-- Alice has minted and burned. -/
def founded : State Storage :=
  replay [(alice, .burnNft (0, 0) 10), (alice, mintTo alice), (alice, newCollection)]

/-- Bob has let `pallet_uniques` know that he is ready to own the
collection. -/
def awaited : State Storage := { founded with ext := accepting bob 0 founded.ext }

/-- And Alice has handed it over to him. -/
def handedOver : State Storage := apply (alice, .changeCollectionIssuer 0 bob) awaited

/-- The run to there. -/
def handover : List (State Storage × Act Storage) :=
  (awaited, .signed alice (.changeCollectionIssuer 0 bob)) ::
    (founded, .between founded.blockNumber (accepting bob 0 founded.ext)) ::
      history [(alice, .burnNft (0, 0) 10), (alice, mintTo alice), (alice, newCollection)]

theorem isRun_handover : IsRun handover handedOver := by
  have hfounded : IsRun _ founded := isRun_replay (by decide +kernel)
  have hawaited : IsRun _ awaited := hfounded.step (step_accepting bob 0 founded)
  exact hawaited.step (step_apply (e := (alice, .changeCollectionIssuer 0 bob)) (by decide +kernel))

theorem agree_handedOver : handedOver.collectionOwner 0 = some bob ∧
    ∀ n, handedOver.nfts (0, n) = none := by
  have hs := collections_agree isRun_handover.reachable
  have hissuer : (handedOver.collections 0).map CollectionInfo.issuer = some bob := by
    decide +kernel
  obtain ⟨col, hcol, hbob⟩ := Option.map_eq_some_iff.1 hissuer
  have hstep : Step handedOver (.signed bob (.destroyCollection 0)) _ :=
    step_apply (e := (bob, .destroyCollection 0)) (by decide +kernel)
  exact ⟨hbob ▸ (hs.1 0).2 col hcol, hs.2.2 bob 0 _ hstep⟩

end Mock

end Rmrk
