import Rmrk.Common.Counter
import Rmrk.Helpers.Issued
import Rmrk.Helpers.Register
/-!
# What a step does to the resources

The resources of the NFTs, the number the next one of each NFT is given,
and the two indexes `rmrk-equip` reads in their place. A mint adds any
number of resources to the NFT it mints, three calls add one, three write
or remove one, and a burn removes those of all it burns; the rest leave
them.
-/

namespace Rmrk

open Counter Effect

variable {W : Type} [Config W] {s s' t : State W} {act : Act W} {x : NftKey} {o : AccountId}
variable {r : ResourceId} {resource : ResourceTypes} {onMint : Bool} {u : Unit}

/-- The resources, the numbers of the next ones, and the indexes. -/
def State.stock (s : State W) :=
  (s.nextResourceId, s.resources, s.equippableBases, s.equippableSlots)

/-- What each resource is. -/
def State.bodies (s : State W) : StorageMap (NftKey × ResourceId) ResourceTypes :=
  fun k => (s.resources k).map ResourceInfo.resource

section Bodies

omit [Config W]

theorem bodies_of_eq (h : s'.resources = s.resources) : s'.bodies = s.bodies := by
  unfold State.bodies
  rw [h]

theorem bodies_insert {k : NftKey × ResourceId} {res : ResourceInfo}
    (h : s'.resources = s.resources.insert k res) :
    s'.bodies = s.bodies.insert k res.resource := by
  funext k'
  rw [State.bodies, h, StorageMap.insert_apply, StorageMap.insert_apply]
  split <;> rfl

theorem bodies_remove {k : NftKey × ResourceId} (h : s'.resources = s.resources.remove k) :
    s'.bodies = s.bodies.remove k := by
  funext k'
  rw [State.bodies, h, StorageMap.remove_apply, StorageMap.remove_apply]
  split <;> rfl

theorem bodies_of_mutate {k : NftKey × ResourceId} {f : ResourceInfo → ResourceInfo}
    (hf : ∀ res, (f res).resource = res.resource) (h : s'.resources = s.resources.mutate k f) :
    s'.bodies = s.bodies := by
  funext k'
  rw [State.bodies, State.bodies, h, StorageMap.mutate_apply]
  split
  · next hk =>
      subst hk
      rw [Option.map_map]
      exact congrFun (congrArg _ (funext hf)) _
  · rfl

end Bodies

/-- **What every addition preserves, the at-mint resources preserve.** -/
theorem Core.addResources_preserves {P : State W → Prop}
    (hP : ∀ s s' resource, Added o x resource true s s' → P s → P s')
    {l : Option (List ResourceTypes)} (h : addResources o x l s = .ok u s') (hs : P s) : P s' := by
  refine each_ok (P := fun s s' => P s → P s') (fun _ => id) (fun _ _ _ h h' hs => h' (h hs))
    (fun res _ s₁ s₂ _ h => ?_) h hs
  simp only [bind_ok, pure_ok] at h
  obtain ⟨_, _, h, -, rfl⟩ := h
  exact hP s₁ _ res (resourceAdd_ok h).2

/-! ## Every step -/

/-- The resource an extrinsic adds, and the NFT it adds it to. -/
def Call.adds : Call W → Option (NftKey × ResourceTypes)
  | .addBasicResource x r => some (x, .basic r)
  | .addComposableResource x r => some (x, .composable r)
  | .addSlotResource x r => some (x, .slot r)
  | _ => none

/-- The resources an extrinsic brings with the NFT it mints. -/
def Call.brings : Call W → Option (List ResourceTypes)
  | .mintNft _ _ _ _ _ _ l | .mintNftDirectlyToNft _ _ _ _ _ _ l => l
  | _ => none

/-- The step mints `x`. -/
def Act.Mints (s : State W) (act : Act W) (x : NftKey) : Prop :=
  act.mintsInto = some x.1 ∧ s.nextNftId x.1 = x.2

/-- The extrinsics that write the resources. -/
def Call.stocks : Call W → Bool
  | .mintNft .. | .mintNftDirectlyToNft .. | .burnNft .. | .rejectNft .. | .addBasicResource ..
  | .addComposableResource .. | .addSlotResource .. | .acceptResource .. | .removeResource ..
  | .acceptResourceRemoval .. => true
  | _ => false

/-- The steps that do. -/
def Act.stocks : Act W → Bool
  | .signed _ call => call.stocks
  | .between .. => false

theorem dispatch_stock {call : Call W} (hcall : call.stocks = false) :
    Within (Same State.stock) (dispatch o call) := by
  by_cases hplain : call.plain = true
  · refine Loose.dispatch ?_ hplain
    constructor <;> intros <;> rfl
  · cases call with
    | createCollection =>
        exact Core.within_createCollection (fun _ _ => rfl) (fun _ _ => rfl) fun _ _ _ _ => rfl
    | destroyCollection => exact Core.within_destroyCollection (fun _ _ => rfl) fun _ _ _ _ => rfl
    | changeCollectionIssuer =>
        exact Core.within_changeCollectionIssuer (fun _ _ => rfl) fun _ _ _ _ _ => rfl
    | changeBaseIssuer => exact Equip.within_changeBaseIssuer fun _ _ => rfl
    | equippable => exact Equip.within_equippable fun _ _ => rfl
    | createBase => exact Equip.within_createBase (fun _ _ => rfl) (fun _ _ => rfl) fun _ _ => rfl
    | _ => first | exact absurd rfl hplain | simp [Call.stocks] at hcall

/-- The resources of what has been burned are gone, and their entries in
the indexes left. -/
structure Cleared (x : NftKey) (s s' : State W) : Prop where
  nextResourceId : s'.nextResourceId = s.nextResourceId
  equippableBases : s'.equippableBases = s.equippableBases
  equippableSlots : s'.equippableSlots = s.equippableSlots
  below : ∀ y, Below s x y → ∀ r, s'.resources (y, r) = none
  elsewhere : ∀ y, ¬ Below s x y → ∀ r, s'.resources (y, r) = s.resources (y, r)

/-- **What a step does to the resources**, by its label. -/
inductive Stocked (s s' : State W) : Act W → Prop
  | same {act : Act W} (hact : act.stocks = false) (h : Same State.stock s s') : Stocked s s' act
  | added {o : AccountId} {call : Call W} {x : NftKey} {resource : ResourceTypes}
      (hcall : call.adds = some (x, resource)) (h : Added o x resource false s s') :
      Stocked s s' (.signed o call)
  | minted {o : AccountId} {call : Call W} {c : CollectionId} {t : State W}
      (hcall : (Act.signed o call).mintsInto = some c)
      (ht : Same State.stock s t) (hissuer : t.issuer = s.issuer)
      (h : Core.addResources o (c, s.nextNftId c) call.brings t = .ok () s') :
      Stocked s s' (.signed o call)
  | accepted {o : AccountId} {x : NftKey} {r : ResourceId} {res : ResourceInfo}
      (hroot : RootOwner s x o) (hres : s.resources (x, r) = some res)
      (hpending : res.pending = true)
      (h : s' = { s with resources := s.resources.insert (x, r) { res with pending := false } }) :
      Stocked s s' (.signed o (.acceptResource x r))
  | removed {o : AccountId} {x : NftKey} {r : ResourceId} {res : ResourceInfo}
      (hissuer : s.issuer x.1 = some o) (hroot : RootOwner s x o)
      (hres : s.resources (x, r) = some res)
      (h : s' = { s with resources := s.resources.remove (x, r) }) :
      Stocked s s' (.signed o (.removeResource x r))
  | asked {o : AccountId} {x : NftKey} {r : ResourceId} {res : ResourceInfo}
      (hissuer : s.issuer x.1 = some o) (hroot : ¬ RootOwner s x o)
      (hres : s.resources (x, r) = some res) (h : s' = { s with
        resources := s.resources.mutate (x, r) fun r => { r with pendingRemoval := true } }) :
      Stocked s s' (.signed o (.removeResource x r))
  | consented {o : AccountId} {x : NftKey} {r : ResourceId} {res : ResourceInfo}
      (hroot : RootOwner s x o) (hres : s.resources (x, r) = some res)
      (hremoval : res.pendingRemoval = true)
      (h : s' = { s with resources := s.resources.remove (x, r) }) :
      Stocked s s' (.signed o (.acceptResourceRemoval x r))
  | burned {act : Act W} {x : NftKey} (hact : act.destroys = some x) (h : Cleared x s s') :
      Stocked s s' act

namespace Core

/-- Both mints add their resources last. -/
theorem stocked_of_parts {c : CollectionId} {n : NftId} {col : CollectionInfo} {nft : NftInfo}
    {s₁ s₂ : State W} {w : W} {v : Unit} {call : Call W}
    (hcall : (Act.signed o call).mintsInto = some c) (hid : claimNftId c s = .ok (n, col) s₁)
    (hrec : recordNft (c, n) col nft s₁ = .ok v s₂)
    (h : addResources o (c, n) call.brings { s₂ with ext := w } = .ok () s') :
    Stocked s s' (.signed o call) := by
  obtain ⟨rfl, -, hs₁⟩ := claimNftId_ok hid
  obtain ⟨-, current, hcurrent, hs₂⟩ := recordNft_counts hrec
  subst hs₁
  have hissuer : s₂.issuer = s.issuer := by
    rw [issuer_insert (congrArg State.collections hs₂)]
    exact Function.update_eq_self_iff.2 (issuer_of_eq hcurrent).symm
  have hstock : s₂.stock = s.stock := by rw [hs₂]; rfl
  exact .minted (t := { s₂ with ext := w }) hcall hstock hissuer h

omit [Config W] in
theorem cleared_of_destroyed {q : Option NftKey} (hd : Destroyed x q s s')
    (h : Same (fun s => (s.nextResourceId, s.equippableBases, s.equippableSlots)) s s') :
    Cleared x s s' := by
  simp only [Same, Prod.mk.injEq] at h
  exact ⟨h.1, h.2.1, h.2.2, hd.resources_below, fun y hy => (hd.notes y hy).resources⟩

end Core

/-- **Every step has its effect on the resources.** -/
theorem Step.stocked (hstep : Step s act s') : Stocked s s' act := by
  cases act with
  | between n w =>
      obtain ⟨-, -, rfl⟩ := hstep
      exact .same rfl rfl
  | signed o call =>
      have h : dispatch o call s = .ok () s' := hstep
      by_cases hcall : call.stocks = false
      · exact .same hcall (dispatch_stock hcall _ _ _ h)
      · cases call with
        | mintNft =>
            obtain ⟨n, col, s₁, s₂, w, hid, hrec, -, h⟩ := Core.mintNft_parts h
            exact Core.stocked_of_parts rfl hid hrec h
        | mintNftDirectlyToNft =>
            obtain ⟨n, col, s₁, s₂, b, w, hid, -, hrec, -, h⟩ := Core.mintNftDirectlyToNft_parts h
            exact Core.stocked_of_parts rfl hid hrec h
        | burnNft =>
            refine .burned rfl (Core.cleared_of_destroyed (Core.burnNft_ok h).2.1 ?_)
            exact Core.within_burnNft (fun _ _ => rfl) (fun _ _ => rfl) (fun _ _ => rfl)
              (fun _ _ => rfl) (fun _ _ _ => rfl) _ _ _ h
        | rejectNft =>
            refine .burned rfl (Core.cleared_of_destroyed (Core.rejectNft_ok h).2.2.1 ?_)
            exact Core.within_rejectNft (fun _ _ => rfl) (fun _ _ => rfl) (fun _ _ => rfl)
              (fun _ _ => rfl) _ _ _ h
        | addBasicResource => exact .added rfl (Core.addResource_ok h)
        | addComposableResource => exact .added rfl (Core.addResource_ok h)
        | addSlotResource => exact .added rfl (Core.addResource_ok h)
        | acceptResource =>
            obtain ⟨hroot, res, hres, hpending, h⟩ := Core.acceptResource_writes h
            exact .accepted hroot hres hpending h
        | removeResource =>
            obtain ⟨⟨col, hcol, rfl⟩, res, hres, ⟨hroot, h⟩ | ⟨hroot, h⟩⟩ :=
              Core.removeResource_writes h
            · exact .removed (issuer_of_eq hcol) hroot hres h
            · exact .asked (issuer_of_eq hcol) hroot hres h
        | acceptResourceRemoval =>
            obtain ⟨hroot, res, hres, hremoval, h⟩ := Core.acceptResourceRemoval_writes h
            exact .consented hroot hres hremoval h
        | _ => exact absurd rfl hcall

/-! ## Numbers not given yet -/

/-- **A number an NFT has not come to** is that of no resource of it. -/
def Shelved (s : State W) : Prop := ∀ x r, s.nextResourceId x ≤ r → s.resources (x, r) = none

omit [Config W] in
theorem Shelved.congr (hs : Shelved s) (h : Same State.stock s s') : Shelved s' := by
  simp only [Same, State.stock, Prod.mk.injEq] at h
  exact fun x r hr => h.2.1 ▸ hs x r (h.1 ▸ hr)

/-- What is added has the next number, and the next one moves on. -/
theorem Added.shelved (h : Added o x resource onMint s s') (hs : Shelved s) : Shelved s' := by
  obtain ⟨a, -, hres⟩ := h.resources
  intro y r hr
  rw [h.nextResourceId] at hr
  rw [hres]
  by_cases hy : y = x
  · subst hy
    rw [Function.update_self] at hr
    have hlt := lt_of_succ_le h.room hr
    rw [StorageMap.insert_of_ne fun heq => UInt32.ne_of_lt hlt (congrArg Prod.snd heq).symm]
    exact hs y r (UInt32.le_of_lt hlt)
  · rw [Function.update_of_ne hy] at hr
    rw [StorageMap.insert_of_ne fun heq => hy (congrArg Prod.fst heq)]
    exact hs y r hr

theorem Shelved.step (hs : Shelved s) (hstep : Step s act s') : Shelved s' := by
  cases hstep.stocked with
  | same _ h => exact hs.congr h
  | added _ h => exact h.shelved hs
  | minted _ ht _ h => exact Core.addResources_preserves (fun _ _ _ h => h.shelved) h (hs.congr ht)
  | accepted _ hres _ h =>
      subst h
      intro y r hr
      refine (StorageMap.insert_of_ne fun heq => ?_).trans (hs y r hr)
      rw [← heq, hs y r hr] at hres
      cases hres
  | removed _ _ _ h =>
      subst h
      exact fun y r hr => StorageMap.remove_eq_none (hs y r hr)
  | asked _ _ _ h =>
      subst h
      exact fun y r hr => StorageMap.mutate_eq_none_iff.2 (hs y r hr)
  | consented _ _ _ h =>
      subst h
      exact fun y r hr => StorageMap.remove_eq_none (hs y r hr)
  | @burned _ x _ h =>
      intro y r hr
      by_cases hy : Below s x y
      · exact h.below y hy r
      · rw [h.elsewhere y hy]
        exact hs y r (h.nextResourceId ▸ hr)

theorem Reachable.shelved (h : Reachable s) : Shelved s := by
  refine h.invariant (fun s h0 => ?_) fun _ _ _ _ hs hstep => hs.step hstep
  obtain ⟨w, -, -, rfl⟩ := h0
  exact fun _ _ _ => rfl

/-- An NFT that has not been issued has been given no number. -/
theorem nextResourceId_of_unissued (hr : Reachable s) (hx : s.nextNftId x.1 ≤ x.2) :
    s.nextResourceId x = 0 := by
  revert x
  refine Run.Reachable.invariant (P := fun s => ∀ {x : NftKey}, s.nextNftId x.1 ≤ x.2 →
    s.nextResourceId x = 0) (fun s h0 x _ => ?_) (fun s act s' hr hs hstep x hx => ?_) hr
  · obtain ⟨w, -, -, rfl⟩ := h0
    rfl
  · have hx₀ := hstep.outcome.issued hx
    rw [← hs hx₀]
    cases hstep.stocked with
    | same _ h => exact congrFun (congrArg Prod.fst h) x
    | @added _ _ y _ _ h =>
        -- what is added to has an owner
        obtain ⟨a, hroot, -⟩ := h.resources
        rw [h.nextResourceId, Function.update_of_ne]
        exact ((Reachable.sound hr).absent x hx₀).ne_of_root hroot
    | @minted _ _ c t hcall ht _ h =>
        -- what is minted is issued
        have hne : x ≠ (c, s.nextNftId c) := by
          rintro rfl
          have h := hstep.registered.counting hcall
          rw [h.nextNftId, Function.update_self] at hx
          exact UInt32.lt_irrefl _ (lt_of_succ_le h.room hx)
        exact Core.addResources_preserves (P := fun t => t.nextResourceId x = s.nextResourceId x)
          (fun _ _ _ h hs => by rw [h.nextResourceId, Function.update_of_ne hne, hs]) h
            (congrFun (congrArg Prod.fst ht) x)
    | accepted _ _ _ h => rw [h]
    | removed _ _ _ h => rw [h]
    | asked _ _ _ h => rw [h]
    | consented _ _ _ h => rw [h]
    | burned _ h => rw [h.nextResourceId]

end Rmrk
