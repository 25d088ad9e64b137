import Rmrk.Common.Counter
import Rmrk.Helpers.Catalog
import Rmrk.Helpers.Orderly
import Rmrk.Helpers.Stock
import Rmrk.Mock.Replay
import Rmrk.Properties.Charters
/-!
# Identifiers are handed out once

Collections, the NFTs of a collection, the resources of an NFT and bases
are each numbered by a counter of their own. Every call that creates one
moves the counter first and checks the rest later, so what a run of calls
has handed out is read off the calls that returned: the numbers of one
scope go up, nothing is there under a number that is handed out, and where
a counter has come to its end the call fails and leaves the state.
-/

namespace Rmrk

open Counter Effect

variable {W : Type} {s s' t : State W} {o : AccountId} {x : NftKey} {u : Unit}

/-! ## What is handed out -/

/-- An identifier, and what it is of. -/
inductive Issue where
  | collection (c : CollectionId)
  | nft (x : NftKey)
  | resource (x : NftKey) (r : ResourceId)
  | base (b : BaseId)
  deriving DecidableEq

/-- What is numbered together. -/
inductive Scope where
  | collections
  | nftsOf (c : CollectionId)
  | resourcesOf (x : NftKey)
  | bases

/-- An NFT is numbered in its collection, a resource on its NFT. -/
def Issue.scope : Issue → Scope
  | .collection _ => .collections
  | .nft x => .nftsOf x.1
  | .resource x _ => .resourcesOf x
  | .base _ => .bases

/-- Its number there. -/
def Issue.number : Issue → ℕ
  | .collection c => c.toNat
  | .nft x => x.2.toNat
  | .resource _ r => r.toNat
  | .base b => b.toNat

/-- The number that is handed out next. -/
def State.counter (s : State W) : Scope → ℕ
  | .collections => s.collectionIndex.toNat
  | .nftsOf c => (s.nextNftId c).toNat
  | .resourcesOf x => (s.nextResourceId x).toNat
  | .bases => s.nextBaseId.toNat

/-- What `k` makes of what a call returns, and nothing of a call that does
not return. -/
def after {α β : Type} (m : M W α) (s : State W) (k : α → State W → List β) : List β :=
  match m s with
  | .ok a s' => k a s'
  | .error _ _ => []

/-- Of a call that returned, `k` of what it returned. -/
theorem after_of_ok {α β : Type} {m : M W α} {k : α → State W → List β} {a : α}
    (h : m s = .ok a s') : after m s k = k a s' := by
  simp only [after, h]

variable [Config W] {act : Act W} {call : Call W} {h : List (State W × Act W)}

/-- **There is nothing under an identifier**, in either ledger where there
are two. -/
def Vacant (s : State W) : Issue → Prop
  | .collection c => s.collections c = none ∧ s.collectionOwner c = none
  | .nft x => s.nfts x = none ∧ s.owner x = none
  | .resource x r => s.resources (x, r) = none
  | .base b => s.bases b = none

/-- The identifier a resource is given. -/
def addition (o : AccountId) (x : NftKey) (resource : ResourceTypes) (onMint : Bool)
    (s : State W) : List (State W × Issue) :=
  after (Core.resourceAdd o x resource onMint) s fun r _ => [(s, .resource x r)]

/-- Those the at-mint resources are given, one after the other. -/
def additions (o : AccountId) (x : NftKey) : List ResourceTypes → State W →
    List (State W × Issue)
  | [], _ => []
  | resource :: l, s =>
      after (Core.resourceAdd o x resource true) s fun r s' =>
        (s, .resource x r) :: additions o x l s'

/-- The identifier of a mint, and those of its resources: `mint` records
the NFT and `owner` is the account that gets it. -/
def mintings (o owner : AccountId) (mint : M W NftKey) (l : Option (List ResourceTypes))
    (s : State W) : List (State W × Issue) :=
  after mint s fun x s₁ => (s, .nft x) ::
    after (external fun w => Uniques.doMint w x owner) s₁ fun _ s₂ => additions o x (l.getD []) s₂

/-- **The identifiers a step hands out**, each with the state it is handed
out in: what the functions of the source that hand one out return. -/
def handedOut (s : State W) : Act W → List (State W × Issue)
  | .signed o (.createCollection md max sy) =>
      after (Core.collectionCreate o md max sy) s fun c _ => [(s, .collection c)]
  | .signed o (.mintNft owner c rr r md tr l) =>
      mintings o (owner.getD o) (Core.nftMint o (owner.getD o) c rr r md tr) l s
  | .signed o (.mintNftDirectlyToNft p c rr r md tr l) =>
      mintings o (nftToAccountId p) (Core.nftMintDirectlyToNft o p c rr r md tr) l s
  | .signed o (.addBasicResource x r) => addition o x (.basic r) false s
  | .signed o (.addComposableResource x r) => addition o x (.composable r) false s
  | .signed o (.addSlotResource x r) => addition o x (.slot r) false s
  | .signed o (.createBase bt sy ps) =>
      after (Equip.baseCreate o bt sy ps) s fun b _ => [(s, .base b)]
  | _ => []

/-- Those a run hands out, in the order it does. -/
def issues : List (State W × Act W) → List (State W × Issue)
  | [] => []
  | (s, act) :: h => issues h ++ handedOut s act

/-- What is handed out while the counters go from those of `s` to those of
`s'` is numbered in turn, and vacant. -/
structure Issued (s s' : State W) (l : List (State W × Issue)) : Prop where
  numbers : Numbers (fun e : State W × Issue => e.2.scope) (fun e => e.2.number)
    s.counter s'.counter l
  vacant : ∀ e ∈ l, Vacant e.1 e.2

/-- **Handing out goes on**: the numbers of the second part are past those of
the first. -/
theorem Issued.append {l l' : List (State W × Issue)} (h : Issued s t l) (h' : Issued t s' l') :
    Issued s s' (l ++ l') where
  numbers := h.numbers.append h'.numbers
  vacant e he := (List.mem_append.1 he).elim (h.vacant e) (h'.vacant e)

/-- One identifier, with its counter moved past it. -/
theorem Issued.one {i : Issue} (h : ∀ k, s.counter k ≤ s'.counter k)
    (hnumber : i.number = s.counter i.scope) (hnext : s.counter i.scope < s'.counter i.scope)
    (hvacant : Vacant s i) : Issued s s' [(s, i)] where
  numbers := .one h hnumber hnext
  vacant e he := by rw [List.mem_singleton.1 he]; exact hvacant

/-! ## Adding resources -/

/-- What is added moves one counter. -/
theorem Added.counter {resource : ResourceTypes} {onMint : Bool}
    (h : Added o x resource onMint s s') :
    (∀ k, s.counter k ≤ s'.counter k) ∧
      s.counter (.resourcesOf x) < s'.counter (.resourcesOf x) := by
  have hlt : s.counter (.resourcesOf x) < s'.counter (.resourcesOf x) := by
    simp only [State.counter, h.nextResourceId, Function.update_self]
    rw [toNat_succ_of_room h.room]
    exact Nat.lt_succ_self _
  refine ⟨fun k => ?_, hlt⟩
  cases k with
  | collections => rw [h.frame]; exact le_rfl
  | nftsOf c => rw [h.frame]; exact le_rfl
  | resourcesOf y =>
      by_cases hy : y = x
      · exact hy ▸ hlt.le
      · simp only [State.counter, h.nextResourceId, Function.update_of_ne hy]
        exact le_rfl
  | bases => rw [h.frame]; exact le_rfl

/-- A resource takes the next number of its NFT, under which there is none. -/
theorem resourceAdd_issued {resource : ResourceTypes} {onMint : Bool} {r : ResourceId}
    (hs : Shelved s) (h : Core.resourceAdd o x resource onMint s = .ok r s') :
    Issued s s' [(s, .resource x r)] ∧ Shelved s' := by
  obtain ⟨rfl, hadded⟩ := Core.resourceAdd_ok h
  exact ⟨.one hadded.counter.1 rfl hadded.counter.2 (hs x _ (UInt32.le_refl _)), hadded.shelved hs⟩

/-- So it does where it is all a call adds. -/
theorem addResource_issued {resource : ResourceTypes} (hs : Shelved s)
    (h : Core.addResource o x resource s = .ok u s') :
    Issued s s' (addition o x resource false s) := by
  simp only [Core.addResource, transactional_ok, bind_ok, pure_ok] at h
  obtain ⟨r, _, h, -, rfl⟩ := h
  rw [addition, after_of_ok h]
  exact (resourceAdd_issued hs h).1

/-- And those of a mint do one after the other, by induction on the list. -/
theorem additions_issued {l : List ResourceTypes} (hs : Shelved s)
    (h : Core.addResources o x (some l) s = .ok u s') : Issued s s' (additions o x l s) := by
  induction l generalizing s with
  | nil =>
      obtain ⟨-, rfl⟩ := pure_ok.1 h
      exact ⟨.nil fun _ => le_rfl, by simp [additions]⟩
  | cons resource l ih =>
      simp only [Core.addResources, Option.getD_some, each, bind_assoc] at h
      rw [bind_ok] at h
      obtain ⟨r, s₁, hadd, h⟩ := h
      obtain ⟨hissued, hs₁⟩ := resourceAdd_issued hs hadd
      rw [additions, after_of_ok hadd]
      exact hissued.append (ih hs₁ h)

/-! ## Minting -/

/-- An NFT has been given the next identifier of `c`, and recorded. -/
structure Claimed (c : CollectionId) (x : NftKey) (s s' : State W) : Prop where
  key : x = (c, s.nextNftId c)
  room : (s.nextNftId c).toNat + 1 < UInt32.size
  frame : ∃ nfts collections, s' = { s with
    nextNftId := Function.update s.nextNftId c (s.nextNftId c + 1), nfts, collections }

omit [Config W] in
/-- Both mints claim, and then record. -/
theorem claimed_of_parts {c : CollectionId} {n : NftId} {col : CollectionInfo} {nft : NftInfo}
    {s₁ : State W} (hid : Core.claimNftId c s = .ok (n, col) s₁)
    (hrec : Core.recordNft (c, n) col nft s₁ = .ok u s') : Claimed c (c, n) s s' := by
  obtain ⟨rfl, hroom, rfl⟩ := Core.claimNftId_ok hid
  obtain ⟨collections, rfl⟩ := Core.recordNft_ok hrec
  exact ⟨rfl, hroom, _, _, rfl⟩

omit [Config W] in
theorem nftMint_claims {owner : AccountId} {c : CollectionId} {rr : Option AccountId}
    {r : Option Permill} {md : BoundedString} {tr : Bool}
    (h : Core.nftMint o owner c rr r md tr s = .ok x s') : Claimed c x s s' := by
  rw [Core.nftMint, bind_ok] at h
  obtain ⟨⟨n, col⟩, s₁, hid, h⟩ := h
  rw [bind_ok] at h
  obtain ⟨_, s₂, hrec, h⟩ := h
  obtain ⟨rfl, rfl⟩ := pure_ok.1 h
  exact claimed_of_parts hid hrec

theorem nftMintDirectlyToNft_claims {p : NftKey} {c : CollectionId} {rr : Option AccountId}
    {r : Option Permill} {md : BoundedString} {tr : Bool}
    (h : Core.nftMintDirectlyToNft o p c rr r md tr s = .ok x s') : Claimed c x s s' := by
  rw [Core.nftMintDirectlyToNft, bind_ok] at h
  obtain ⟨⟨n, col⟩, s₁, hid, h⟩ := h
  simp only [lookupRootOwner_bind_ok] at h
  obtain ⟨b, root, -, h⟩ := h
  rw [bind_ok] at h
  obtain ⟨_, s₂, hrec, h⟩ := h
  obtain ⟨rfl, rfl⟩ := pure_ok.1 h
  exact claimed_of_parts hid hrec

omit [Config W] in
/-- What is claimed moves one counter. -/
theorem Claimed.counter {c : CollectionId} (h : Claimed c x s s') :
    (∀ k, s.counter k ≤ s'.counter k) ∧ s.counter (.nftsOf c) < s'.counter (.nftsOf c) := by
  obtain ⟨nfts, collections, hframe⟩ := h.frame
  have hlt : s.counter (.nftsOf c) < s'.counter (.nftsOf c) := by
    rw [hframe]
    simp only [State.counter, Function.update_self]
    rw [toNat_succ_of_room h.room]
    exact Nat.lt_succ_self _
  refine ⟨fun k => ?_, hlt⟩
  cases k with
  | collections => rw [hframe]; exact le_rfl
  | nftsOf d =>
      by_cases hd : d = c
      · exact hd ▸ hlt.le
      · rw [hframe]
        simp only [State.counter, Function.update_of_ne hd]
        exact le_rfl
  | resourcesOf y => rw [hframe]; exact le_rfl
  | bases => rw [hframe]; exact le_rfl

/-- **Both mints** hand out the identifier of the NFT, and then those of
its resources. -/
theorem mintings_issued (hr : Reachable s) {owner : AccountId} {c : CollectionId}
    {mint : M W NftKey} {l : Option (List ResourceTypes)} {check : M W Unit}
    (hcheck : Within (Same id) check) (hmint : ∀ x s₁, mint s = .ok x s₁ → Claimed c x s s₁)
    (h : transactional (do
      check
      let x ← mint
      external fun w => Uniques.doMint w x owner
      Core.addResources o x l) s = .ok u s') : Issued s s' (mintings o owner mint l s) := by
  rw [transactional_ok, bind_ok] at h
  obtain ⟨_, t, hc, h⟩ := h
  obtain rfl : t = s := hcheck _ _ _ hc
  rw [bind_ok] at h
  obtain ⟨x, s₁, hx, h⟩ := h
  rw [bind_ok] at h
  obtain ⟨_, s₂, hs₂, h⟩ := h
  have hclaimed := hmint x s₁ hx
  have hkey := hclaimed.key
  have hvacant := (Reachable.sound hr).absent x (by rw [hkey]; exact UInt32.le_refl _)
  obtain ⟨nfts, collections, hframe⟩ := hclaimed.frame
  obtain ⟨w, -, hw⟩ := external_ok.1 hs₂
  have hshelved : Shelved s₂ := (Reachable.shelved hr).congr (by rw [← hw, hframe]; rfl)
  have hcounter : s₂.counter = s₁.counter := by rw [← hw]; rfl
  rw [mintings, after_of_ok hx, after_of_ok hs₂]
  refine Issued.append (t := s₂) (l := [_]) (.one ?_ ?_ ?_ ⟨hvacant.nfts, hvacant.owner⟩)
    (additions_issued hshelved h)
  · exact hcounter ▸ hclaimed.counter.1
  · simp only [Issue.number, Issue.scope, State.counter, hkey]
  · rw [hcounter, hkey]
    exact hclaimed.counter.2

/-! ## Every step -/

/-- No step takes a counter back. -/
theorem Step.counter_le (hstep : Step s act s') (k : Scope) : s.counter k ≤ s'.counter k := by
  cases k with
  | collections =>
      simp only [State.counter]
      rcases hstep.registered.split with ⟨c, -, h⟩ | ⟨-, h⟩ | ⟨x, -, h⟩ | ⟨-, h⟩
      · exact (congrArg _ h.collectionIndex).ge
      · rw [h.collectionIndex, toNat_succ h.room]
        exact Nat.le_succ _
      · exact (congrArg _ h.collectionIndex).ge
      · exact (congrArg _ h.collectionIndex).ge
  | nftsOf c =>
      simp only [State.counter]
      rcases hstep.registered.split with ⟨d, -, h⟩ | ⟨-, h⟩ | ⟨x, -, h⟩ | ⟨-, h⟩
      · rw [h.next]
        exact Nat.le_add_right _ _
      · rw [h.presence.nextNftId]
      · rw [h.nextNftId]
      · rw [h.presence.nextNftId]
  | resourcesOf x =>
      cases hstep.stocked with
      | same _ h => exact (congrArg (fun q => (q.1 x).toNat) h).ge
      | added _ h => exact h.counter.1 _
      | minted _ ht _ h =>
          refine Core.addResources_preserves
            (P := fun t => s.counter (.resourcesOf x) ≤ t.counter (.resourcesOf x))
            (fun _ _ _ h hle => hle.trans (h.counter.1 _)) h ?_
          exact (congrArg (fun q => (q.1 x).toNat) ht).ge
      | accepted _ _ _ h => rw [h]; exact le_rfl
      | removed _ _ _ h => rw [h]; exact le_rfl
      | asked _ _ _ h => rw [h]; exact le_rfl
      | consented _ _ _ h => rw [h]; exact le_rfl
      | burned _ h => exact (congrArg (fun m => (m x).toNat) h.nextResourceId).ge
  | bases =>
      cases hstep.catalogued with
      | same _ h => exact (congrArg (fun q => q.2.2.toNat) h).ge
      | created h =>
          simp only [State.counter, h.nextBaseId, toNat_succ_of_room h.room]
          exact Nat.le_succ _
      | equippable _ _ h => rw [h]; exact le_rfl
      | issuerChanged h => rw [h]; exact le_rfl

/-- **What a step hands out** is numbered in turn, and vacant. -/
theorem Step.issued [CollectionOwners W] (hr : Reachable s) (hstep : Step s act s') :
    Issued s s' (handedOut s act) := by
  have hshelved := Reachable.shelved hr
  have hcheck : ∀ o c, Within (Same id) (Core.checkCollectionOwner o c : M W Unit) := fun _ _ =>
    Core.within_checkCollectionOwner
  cases act with
  | between => exact ⟨.nil hstep.counter_le, by simp [handedOut]⟩
  | signed o call =>
      have h : dispatch o call s = .ok () s' := hstep
      cases call with
      | createCollection =>
          obtain ⟨hroom, w, -, hs'⟩ := Core.createCollection_writes h
          rw [dispatch, Core.createCollection, transactional_ok, bind_ok] at h
          obtain ⟨c, s₁, hc, -⟩ := h
          rw [handedOut, after_of_ok hc]
          simp only [Core.collectionCreate, get_bind_ok, ensure_bind_ok, update_bind_ok,
            pure_ok] at hc
          obtain ⟨-, rfl, -⟩ := hc
          have hnone : s.collections s.collectionIndex = none := by
            by_contra hsome
            obtain ⟨col, hcol⟩ := Option.ne_none_iff_exists'.1 hsome
            exact lt_irrefl _ ((Reachable.orderly hr).numbered _ col hcol)
          refine .one hstep.counter_le rfl ?_ ⟨hnone, ?_⟩
          · rw [hs']
            simp only [State.counter, Issue.scope, toNat_succ hroom]
            exact Nat.lt_succ_self _
          · rw [(Reachable.chartered hr).owner, State.issuer, Function.comp_apply, hnone]
            rfl
      | mintNft => exact mintings_issued hr (hcheck _ _) (fun _ _ => nftMint_claims) h
      | mintNftDirectlyToNft =>
          exact mintings_issued hr (hcheck _ _) (fun _ _ => nftMintDirectlyToNft_claims) h
      | addBasicResource => exact addResource_issued hshelved h
      | addComposableResource => exact addResource_issued hshelved h
      | addSlotResource => exact addResource_issued hshelved h
      | createBase =>
          have hcreated := Equip.createBase_created h
          rw [dispatch, Equip.createBase, bind_ok] at h
          obtain ⟨b, s₁, hb, -⟩ := h
          rw [handedOut, after_of_ok hb]
          simp only [Equip.baseCreate, Equip.getNextBaseId, bind_assoc, get_bind_ok, okOr_bind_ok,
            update_bind_ok, pure_bind_ok] at hb
          obtain ⟨id, -, hb⟩ := hb
          rw [bind_ok] at hb
          obtain ⟨_, s₂, -, hb⟩ := hb
          simp only [update_bind_ok, pure_ok] at hb
          obtain ⟨rfl, -⟩ := hb
          refine .one hstep.counter_le rfl ?_
            ((Reachable.basesNumbered hr).bases _ (UInt32.le_refl _))
          simp only [State.counter, Issue.scope, hcreated.nextBaseId,
            toNat_succ_of_room hcreated.room]
          exact Nat.lt_succ_self _
      | _ => exact ⟨.nil hstep.counter_le, by simp [handedOut]⟩

/-- And so is what a run does. -/
theorem issues_issued [CollectionOwners W] (hr : IsRun h s) : ∃ s₀, Issued s₀ s (issues h) := by
  induction hr with
  | @start s _ => exact ⟨s, .nil fun _ => le_rfl, by simp [issues]⟩
  | step hr hstep ih =>
      obtain ⟨s₀, hissued⟩ := ih
      exact ⟨s₀, hissued.append (hstep.issued hr.reachable)⟩

/-! ## Counters that have come to their end -/

/-- **The counter a call moves** has come to its end. -/
def Exhausted (s : State W) : Call W → Prop
  | .createCollection .. => s.counter .collections = 4294967295
  | .mintNft _ c .. | .mintNftDirectlyToNft _ c .. => s.counter (.nftsOf c) = 4294967295
  | .addBasicResource x _ | .addComposableResource x _ | .addSlotResource x _ =>
      s.counter (.resourcesOf x) = 4294967295
  | .createBase .. => s.counter .bases = 4294967295
  | _ => False

/-- The at-mint resources are more than the NFT they are for has numbers
left. -/
def Overfull (s : State W) : Call W → Prop
  | .mintNft _ c _ _ _ _ l | .mintNftDirectlyToNft _ c _ _ _ _ l =>
      4294967295 < s.counter (.resourcesOf (c, s.nextNftId c)) + (l.getD []).length
  | _ => False

/-- A counter at its end is the largest number. -/
theorem eq_of_exhausted {n : UInt32} (h : n.toNat = 4294967295) : n = 4294967295 :=
  UInt32.toNat_inj.1 h

omit [Config W] in
/-- **A collection with no number left answers with an error.** -/
theorem getNextNftId_exhausted {c : CollectionId} (h : s.counter (.nftsOf c) = 4294967295) :
    Core.getNextNftId c s = .error (.err (.core .noAvailableNftId)) s := by
  rw [Core.getNextNftId, get_bind, okOr_bind_error]
  exact .inl ⟨by rw [eq_of_exhausted h]; rfl, rfl, rfl⟩

omit [Config W] in
/-- So do the bases. -/
theorem getNextBaseId_exhausted (h : s.counter .bases = 4294967295) :
    Equip.getNextBaseId s = .error (.err (.equip .noAvailableBaseId)) s := by
  rw [Equip.getNextBaseId, get_bind, okOr_bind_error]
  exact .inl ⟨by rw [eq_of_exhausted h]; rfl, rfl, rfl⟩

omit [Config W] in
/-- So do the collections. -/
theorem collectionCreate_exhausted {md sy : BoundedString} {max : Option UInt32}
    (h : s.counter .collections = 4294967295) :
    Core.collectionCreate o md max sy s = .error (.err (.core .noAvailableCollectionId)) s := by
  rw [Core.collectionCreate, get_bind, ensure_bind_error]
  exact .inl ⟨fun hne => hne (eq_of_exhausted h), rfl, rfl⟩

/-- An NFT does too, with that or with what fails before. -/
theorem resourceAdd_exhausted {resource : ResourceTypes} {onMint : Bool}
    (h : s.counter (.resourcesOf x) = 4294967295) :
    ∃ e : DispatchError, Core.resourceAdd o x resource onMint s = .error (.err e) s := by
  have hnext : Core.getNextResourceId x s = .error (.err (.core .noAvailableResourceId)) s := by
    rw [Core.getNextResourceId, get_bind, okOr_bind_error]
    exact .inl ⟨by rw [eq_of_exhausted h]; rfl, rfl, rfl⟩
  cases hcol : s.collections x.1 with
  | none =>
      refine ⟨.core .collectionUnknown, ?_⟩
      rw [Core.resourceAdd, get_bind, okOr_bind_error]
      exact .inl ⟨hcol, rfl, rfl⟩
  | some col =>
      refine ⟨.core .noAvailableResourceId, ?_⟩
      rw [Core.resourceAdd, get_bind, okOr_bind_error]
      exact .inr ⟨col, hcol, bind_of_error hnext⟩

theorem addResource_exhausted {resource : ResourceTypes}
    (h : s.counter (.resourcesOf x) = 4294967295) :
    ∃ e : DispatchError, Core.addResource o x resource s = .error (.err e) s := by
  obtain ⟨e, he⟩ := resourceAdd_exhausted h
  exact ⟨e, transactional_of_error (bind_of_error he)⟩

/-- The check of the signer returns, or fails, and writes nothing. -/
theorem checkCollectionOwner_cases {c : CollectionId} :
    Core.checkCollectionOwner o c s = .ok () s ∨
      ∃ e : DispatchError, Core.checkCollectionOwner o c s = .error (.err e) s := by
  cases ha : Uniques.collectionOwner s.ext c with
  | none =>
      refine .inr ⟨.core .collectionUnknown, ?_⟩
      rw [Core.checkCollectionOwner, get_bind, okOr_bind_error]
      exact .inl ⟨ha, rfl, rfl⟩
  | some a =>
      by_cases hao : a = o
      · refine .inl ?_
        rw [Core.checkCollectionOwner, get_bind, okOr_bind_ok]
        exact ⟨a, ha, ensure_ok.2 ⟨hao, rfl⟩⟩
      · refine .inr ⟨.core .noPermission, ?_⟩
        rw [Core.checkCollectionOwner, get_bind, okOr_bind_error]
        exact .inr ⟨a, ha, ensure_error.2 ⟨hao, rfl, rfl⟩⟩

/-- It is made before a mint moves its counter. -/
theorem mint_exhausted {c : CollectionId} {mint : M W NftKey} {k : NftKey → M W Unit}
    (h : mint s = .error (.err (.core .noAvailableNftId)) s) :
    ∃ e : DispatchError, transactional (do
      Core.checkCollectionOwner o c
      let x ← mint
      k x) s = .error (.err e) s := by
  rcases checkCollectionOwner_cases (o := o) (s := s) (c := c) with hcheck | ⟨e, hcheck⟩
  · have hmint : (do Core.checkCollectionOwner o c; let x ← mint; k x) s =
        .error (.err (.core .noAvailableNftId)) s := by
      rw [bind_of_ok hcheck]
      exact bind_of_error h
    exact ⟨_, transactional_of_error hmint⟩
  · exact ⟨e, transactional_of_error (bind_of_error hcheck)⟩

/-- **A call whose counter has come to its end** fails, and leaves the
state. -/
theorem dispatch_exhausted (h : Exhausted s call) :
    ∃ e : DispatchError, dispatch o call s = .error (.err e) s := by
  cases call with
  | createCollection =>
      exact ⟨_, transactional_of_error (bind_of_error (collectionCreate_exhausted h))⟩
  | mintNft => exact mint_exhausted (bind_of_error (bind_of_error (getNextNftId_exhausted h)))
  | mintNftDirectlyToNft =>
      exact mint_exhausted (bind_of_error (bind_of_error (getNextNftId_exhausted h)))
  | addBasicResource => exact addResource_exhausted h
  | addComposableResource => exact addResource_exhausted h
  | addSlotResource => exact addResource_exhausted h
  | createBase =>
      exact ⟨_, bind_of_error (bind_of_error (getNextBaseId_exhausted h))⟩
  | _ => exact h.elim

/-- Where all have been added there was room for all. -/
theorem additions_fit {l : List ResourceTypes}
    (h : Core.addResources o x (some l) s = .ok u s') :
    s.counter (.resourcesOf x) + l.length ≤ 4294967295 := by
  induction l generalizing s with
  | nil =>
      have hlt := (s.nextResourceId x).toNat_lt
      simp only [State.counter, List.length_nil]
      omega
  | cons resource l ih =>
      simp only [Core.addResources, Option.getD_some, each, bind_assoc] at h
      rw [bind_ok] at h
      obtain ⟨r, s₁, hadd, h⟩ := h
      have hlt := (Core.resourceAdd_ok hadd).2.counter.2
      have hfit := ih h
      simp only [List.length_cons]
      omega

theorem not_overfull_of_parts {c : CollectionId} {n : NftId} {col : CollectionInfo} {nft : NftInfo}
    {l : Option (List ResourceTypes)} {s₁ s₂ : State W} {w : W} {v : Unit}
    (hid : Core.claimNftId c s = .ok (n, col) s₁)
    (hrec : Core.recordNft (c, n) col nft s₁ = .ok v s₂)
    (h : Core.addResources o (c, n) l { s₂ with ext := w } = .ok u s') :
    ¬ 4294967295 < s.counter (.resourcesOf (c, s.nextNftId c)) + (l.getD []).length := by
  obtain ⟨rfl, -, hs₁⟩ := Core.claimNftId_ok hid
  obtain ⟨collections, hs₂⟩ := Core.recordNft_ok hrec
  have hnext : s₂.nextResourceId = s.nextResourceId := by rw [hs₂, hs₁]
  have hfit := additions_fit (l := l.getD []) h
  simp only [State.counter, hnext] at hfit ⊢
  omega

/-- So does one that is given more resources than there are numbers. -/
theorem dispatch_overfull (h : Overfull s call) : ∃ e, dispatch o call s = .error e s := by
  cases call with
  | mintNft =>
      refine transactional_of_not_ok fun u s' hok => ?_
      obtain ⟨n, col, s₁, s₂, w, hid, hrec, -, hadd⟩ :=
        Core.mintNft_parts (transactional_ok.2 hok)
      exact not_overfull_of_parts hid hrec hadd h
  | mintNftDirectlyToNft =>
      refine transactional_of_not_ok fun u s' hok => ?_
      obtain ⟨n, col, s₁, s₂, b, w, hid, -, hrec, -, hadd⟩ :=
        Core.mintNftDirectlyToNft_parts (transactional_ok.2 hok)
      exact not_overfull_of_parts hid hrec hadd h
  | _ => exact h.elim

/-! ## The property -/

/-- **Identifiers are fresh.** Over every run the numbers of one scope are
handed out in increasing order, and nothing is there under an identifier
that is handed out; a call whose counter has no number left fails and
leaves the state. -/
theorem identifiers_fresh [CollectionOwners W] (hr : IsRun h s) :
    (issues h).Pairwise (fun e e' => e.2.scope = e'.2.scope → e.2.number < e'.2.number) ∧
    (∀ e ∈ issues h, Vacant e.1 e.2) ∧
    (∀ o call, Exhausted s call → ∃ e : DispatchError, dispatch o call s = .error (.err e) s) ∧
    ∀ o call, Overfull s call → ∃ e, dispatch o call s = .error e s := by
  obtain ⟨s₀, hissued⟩ := issues_issued hr
  exact ⟨hissued.numbers.increasing, hissued.vacant, fun _ _ => dispatch_exhausted,
    fun _ _ => dispatch_overfull⟩

/-! ## A run that hands some out -/

namespace Mock

/-- A resource without a file. -/
def blank : BasicResource := ⟨none, none, none, none⟩

/-- Alice mints an NFT with two resources and burns it, and mints another
that is given a resource. -/
def renewed : List Extrinsic :=
  [(alice, .addBasicResource (0, 1) blank), (alice, mintTo alice), (alice, .burnNft (0, 0) 1),
    (alice, .createBase [] [] []),
    (alice, .mintNft none 0 none none [] true (some [.basic blank, .basic blank])),
    (alice, newCollection)]

example : (issues (history renewed)).map Prod.snd =
    [.collection 0, .nft (0, 0), .resource (0, 0) 0, .resource (0, 0) 1, .base 0, .nft (0, 1),
      .resource (0, 1) 0] := by decide +kernel

theorem fresh_renewed : (issues (history renewed)).Pairwise
      (fun e e' => e.2.scope = e'.2.scope → e.2.number < e'.2.number) ∧
    ∀ e ∈ issues (history renewed), Vacant e.1 e.2 := by
  have hr : IsRun (history renewed) (replay renewed) := isRun_replay (by decide +kernel)
  have hfresh := identifiers_fresh hr
  exact ⟨hfresh.1, hfresh.2.1⟩

end Mock

end Rmrk
