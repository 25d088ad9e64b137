import Rmrk.Helpers.Stock
import Rmrk.Mock.Replay
/-!
# A resource takes two to come and two to go

The issuer of a collection proposes a resource of an NFT and the owner at
the root of the NFT accepts it; the issuer asks for its removal and the
owner agrees. Who is both does either alone, and a mint brings the
resources it is given with it. Nobody changes what a resource is.
-/

namespace Rmrk

open Effect

variable {W : Type} [Config W] {s s' : State W} {act : Act W} {o : AccountId} {x y : NftKey}
variable {r : ResourceId} {call : Call W}

/-- **What becomes of a resource** is what its two parties agree to, `o`
being the one that signs. -/
structure Agreed (act : Act W) (o : AccountId) (x : NftKey) (r : ResourceId) (s s' : State W) :
    Prop where
  added : s.resources (x, r) = none → ∀ res, s'.resources (x, r) = some res →
    s.issuer x.1 = some o ∧ (res.pending = false → RootOwner s x o ∨ act.Mints s x)
  kept : ∀ res res', s.resources (x, r) = some res → s'.resources (x, r) = some res' →
    res'.id = res.id ∧ res'.resource = res.resource
  accepted : ∀ res res', s.resources (x, r) = some res → s'.resources (x, r) = some res' →
    res'.pending ≠ res.pending → res.pending = true ∧ res'.pending = false ∧ RootOwner s x o
  asked : ∀ res res', s.resources (x, r) = some res → s'.resources (x, r) = some res' →
    res'.pendingRemoval ≠ res.pendingRemoval →
      res.pendingRemoval = false ∧ res'.pendingRemoval = true ∧ s.issuer x.1 = some o
  removed : ∀ res, s.resources (x, r) = some res → s'.resources (x, r) = none →
    RootOwner s x o ∧ (s.issuer x.1 = some o ∨ res.pendingRemoval = true)

/-! ## The cases -/

/-- A resource that is as it was. -/
theorem Agreed.of_eq (h : s'.resources (x, r) = s.resources (x, r)) : Agreed act o x r s s' := by
  have hsame : ∀ {res res'}, s.resources (x, r) = some res → s'.resources (x, r) = some res' →
      res' = res := fun hres hres' => Option.some.inj (hres'.symm.trans (h.trans hres))
  refine ⟨fun hnone res hres => ?_, fun res res' hres hres' => ?_,
    fun res res' hres hres' hne => ?_, fun res res' hres hres' hne => ?_, fun res hres hnone => ?_⟩
  · rw [h, hnone] at hres
    cases hres
  · rw [hsame hres hres']
    exact ⟨rfl, rfl⟩
  · exact absurd (by rw [hsame hres hres']) hne
  · exact absurd (by rw [hsame hres hres']) hne
  · rw [h, hres] at hnone
    cases hnone

/-- One that was not there before. -/
theorem Agreed.of_none (hnone : s.resources (x, r) = none)
    (h : ∀ res, s'.resources (x, r) = some res →
      s.issuer x.1 = some o ∧ (res.pending = false → RootOwner s x o ∨ act.Mints s x)) :
    Agreed act o x r s s' where
  added _ := h
  kept _ _ hres := by simp [hnone] at hres
  accepted _ _ hres := by simp [hnone] at hres
  asked _ _ hres := by simp [hnone] at hres
  removed _ hres := by simp [hnone] at hres

theorem Agreed.of_removed {res : ResourceInfo} (hres : s.resources (x, r) = some res)
    (hgone : s'.resources (x, r) = none)
    (h : RootOwner s x o ∧ (s.issuer x.1 = some o ∨ res.pendingRemoval = true)) :
    Agreed act o x r s s' where
  added hnone := by simp [hres] at hnone
  kept _ _ _ hres' := by simp [hgone] at hres'
  accepted _ _ _ hres' := by simp [hgone] at hres'
  asked _ _ _ hres' := by simp [hgone] at hres'
  removed res' hres' _ := by
    rw [hres, Option.some.injEq] at hres'
    exact hres' ▸ h

/-- One that is there before and after. -/
theorem Agreed.of_some {res res' : ResourceInfo} (hres : s.resources (x, r) = some res)
    (hres' : s'.resources (x, r) = some res')
    (hkept : res'.id = res.id ∧ res'.resource = res.resource)
    (hpending : res'.pending ≠ res.pending →
      res.pending = true ∧ res'.pending = false ∧ RootOwner s x o)
    (hremoval : res'.pendingRemoval ≠ res.pendingRemoval →
      res.pendingRemoval = false ∧ res'.pendingRemoval = true ∧ s.issuer x.1 = some o) :
    Agreed act o x r s s' where
  added hnone := by simp [hres] at hnone
  kept _ _ h h' := by
    obtain rfl := Option.some.inj (hres.symm.trans h)
    obtain rfl := Option.some.inj (hres'.symm.trans h')
    exact hkept
  accepted _ _ h h' := by
    obtain rfl := Option.some.inj (hres.symm.trans h)
    obtain rfl := Option.some.inj (hres'.symm.trans h')
    exact hpending
  asked _ _ h h' := by
    obtain rfl := Option.some.inj (hres.symm.trans h)
    obtain rfl := Option.some.inj (hres'.symm.trans h')
    exact hremoval
  removed _ _ hnone := by simp [hres'] at hnone

theorem Added.agreed {resource : ResourceTypes} (hs : Shelved s)
    (h : Added o y resource false s s') : Agreed act o x r s s' := by
  obtain ⟨a, hroot, hres⟩ := h.resources
  by_cases hk : (x, r) = (y, s.nextResourceId y)
  · obtain ⟨rfl, rfl⟩ := Prod.mk.inj hk
    obtain ⟨col, hcol, hissuer⟩ := h.issuer
    refine .of_none (hs x _ (UInt32.le_refl _)) fun res hres' => ?_
    rw [hres, StorageMap.insert_self, Option.some.injEq] at hres'
    subst hres'
    refine ⟨hissuer ▸ issuer_of_eq hcol, fun hpending => .inl ?_⟩
    -- what does not wait for the owner is its own
    obtain rfl : a = o := by simpa using hpending
    exact hroot
  · exact .of_eq (by rw [hres, StorageMap.insert_of_ne hk])

/-- **Where the at-mint resources come from.** -/
theorem agreed_of_addResources {t : State W} {l : Option (List ResourceTypes)}
    (hnone : ∀ r, s.resources (x, r) = none) (ht : t.resources = s.resources)
    (hissuer : t.issuer = s.issuer) (hmints : act.Mints s x)
    (h : Core.addResources o x l t = .ok () s') : Agreed act o x r s s' := by
  -- what is added is the issuer's, whoever that is
  have hby : s'.issuer = s.issuer ∧
      ∀ r res, s'.resources (x, r) = some res → s.issuer x.1 = some o := by
    refine Core.addResources_preserves (P := fun t => t.issuer = s.issuer ∧
      ∀ r res, t.resources (x, r) = some res → s.issuer x.1 = some o) ?_ h ⟨hissuer, ?_⟩
    · rintro t t' resource h ⟨hissuer, -⟩
      obtain ⟨col, hcol, hby⟩ := h.issuer
      have hcols : t'.issuer = t.issuer := by rw [h.frame]; rfl
      refine ⟨hcols.trans hissuer, fun r res _ => ?_⟩
      rw [← hissuer, issuer_of_eq hcol, hby]
    · intro r res hres
      rw [ht, hnone] at hres
      cases hres
  exact .of_none (hnone r) fun res hres => ⟨hby.2 r res hres, fun _ => .inr hmints⟩

/-- **The resources of an NFT** that is not being destroyed. -/
theorem resources_agreed (hr : Reachable s) (hstep : Step s (.signed o call) s')
    (hcall : (Act.signed o call).destroys = none) :
    Agreed (.signed o call) o x r s s' := by
  have hs := Reachable.shelved hr
  cases hstep.stocked with
  | same _ h => exact .of_eq (congrFun (congrArg (fun q => q.2.1) h) (x, r))
  | added _ h => exact h.agreed hs
  | @minted _ _ c t hmints ht hissuer h =>
      have hres : t.resources = s.resources := congrArg (fun q => q.2.1) ht
      by_cases hx : x = (c, s.nextNftId c)
      · subst hx
        refine agreed_of_addResources (fun r => hs _ r ?_) hres hissuer ⟨hmints, rfl⟩ h
        rw [nextResourceId_of_unissued hr (UInt32.le_refl _)]
        exact UInt32.zero_le
      · refine .of_eq (Core.addResources_preserves
          (P := fun t => t.resources (x, r) = s.resources (x, r)) (fun t t' res h ht => ?_) h
            (congrFun hres _))
        obtain ⟨a, -, hres⟩ := h.resources
        rw [hres, StorageMap.insert_of_ne fun hk => hx (congrArg Prod.fst hk), ht]
  | @accepted _ y r' res hroot hres hpending h =>
      subst h
      by_cases hk : (x, r) = (y, r')
      · obtain ⟨rfl, rfl⟩ := Prod.mk.inj hk
        exact .of_some hres StorageMap.insert_self ⟨rfl, rfl⟩ (fun _ => ⟨hpending, rfl, hroot⟩)
          fun hne => absurd rfl hne
      · exact .of_eq (StorageMap.insert_of_ne hk)
  | @removed _ y r' res hissuer hroot hres h =>
      subst h
      by_cases hk : (x, r) = (y, r')
      · obtain ⟨rfl, rfl⟩ := Prod.mk.inj hk
        exact .of_removed hres StorageMap.remove_self ⟨hroot, .inl hissuer⟩
      · exact .of_eq (StorageMap.remove_of_ne hk)
  | @asked _ y r' res hissuer _ hres h =>
      subst h
      by_cases hk : (x, r) = (y, r')
      · obtain ⟨rfl, rfl⟩ := Prod.mk.inj hk
        have hres' : s.resources.mutate (x, r) (fun r => { r with pendingRemoval := true }) (x, r) =
            some { res with pendingRemoval := true } := by simp [hres]
        refine .of_some hres hres' ⟨rfl, rfl⟩ (fun hne => absurd rfl hne) fun hne => ?_
        exact ⟨by simpa using Ne.symm hne, rfl, hissuer⟩
      · exact .of_eq (StorageMap.mutate_of_ne hk)
  | @consented _ y r' res hroot hres hremoval h =>
      subst h
      by_cases hk : (x, r) = (y, r')
      · obtain ⟨rfl, rfl⟩ := Prod.mk.inj hk
        exact .of_removed hres StorageMap.remove_self ⟨hroot, .inr hremoval⟩
      · exact .of_eq (StorageMap.remove_of_ne hk)
  | burned hact => simp [hcall] at hact

/-! ## A proposal to another's NFT -/

namespace Mock

/-- Alice mints an NFT for Bob. -/
def mintedForBob : List Extrinsic := [(alice, mintTo bob), (alice, newCollection)]

/-- Alice proposes a resource. -/
def proposal : Extrinsic := (alice, .addBasicResource (0, 0) ⟨none, none, none, none⟩)

theorem agreed_proposal : Agreed (.signed alice proposal.2) alice (0, 0) 0 (replay mintedForBob)
    (apply proposal (replay mintedForBob)) :=
  resources_agreed (reachable_replay (by decide +kernel))
    (step_apply (e := proposal) (by decide +kernel)) rfl

end Mock

end Rmrk
