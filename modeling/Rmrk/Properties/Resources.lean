import Rmrk.Helpers.Given
import Rmrk.Mock.Replay
/-!
# The life of a resource

A resource is given to an NFT, or proposed where the NFT is somebody
else's; it is approved by the owner at the root, called back by the issuer,
and taken away. How it stands can be read off the history of a run, and
nothing but that.
-/

namespace Rmrk

open Effect

variable {W : Type} [Config W] {s s' : State W} {act : Act W} {h : List (State W × Act W)}
variable {k : NftKey × ResourceId} {res : ResourceInfo}

/-- The step proposes the resource `k`: who adds it does not own the NFT at
the root. -/
def Act.Proposes (s : State W) (act : Act W) (k : NftKey × ResourceId) : Prop :=
  ∃ o call body, act = .signed o call ∧ call.adds = some (k.1, body) ∧
    k.2 = s.nextResourceId k.1 ∧ ¬ RootOwner s k.1 o

/-- The step approves the resource `k`: the owner of the NFT at the root
accepts it. -/
def Act.Approves (s : State W) (act : Act W) (k : NftKey × ResourceId) : Prop :=
  ∃ o, act = .signed o (.acceptResource k.1 k.2) ∧ RootOwner s k.1 o

/-- The step calls the resource `k` back: its issuer, who does not own the
NFT at the root, asks for it to be removed. -/
def Act.Recalls (s : State W) (act : Act W) (k : NftKey × ResourceId) : Prop :=
  ∃ o, act = .signed o (.removeResource k.1 k.2) ∧ s.issuer k.1.1 = some o ∧ ¬ RootOwner s k.1 o

/-- **How a resource stands**, by the history: it has been given and not
taken away, it waits if it was proposed and has not been approved, and its
removal is asked for if it was called back. -/
structure Standing (h : List (State W × Act W)) (k : NftKey × ResourceId) (res : ResourceInfo) :
    Prop where
  given : Given h k res.resource
  kept : ¬ Removed h k
  id : res.id = k.2
  pending : res.pending = true ↔
    Run.Past (fun s act => act.Proposes s k) h ∧ ¬ Run.Past (fun s act => act.Approves s k) h
  pendingRemoval : res.pendingRemoval = true ↔ Run.Past (fun s act => act.Recalls s k) h

/-! ## One step -/

/-- The step neither approves a resource nor calls it back nor takes it
away. -/
structure Act.Leaves (s : State W) (act : Act W) (k : NftKey × ResourceId) : Prop where
  approves : ¬ act.Approves s k
  recalls : ¬ act.Recalls s k
  removes : ¬ act.Removes s k

/-- The resource a call names. -/
def Call.regards : Call W → Option (NftKey × ResourceId)
  | .acceptResource x r | .removeResource x r | .acceptResourceRemoval x r => some (x, r)
  | _ => none

/-- **What a step does to one resource.** -/
inductive Turn (s s' : State W) (act : Act W) (k : NftKey × ResourceId) : Prop
  | same (h : s'.resources k = s.resources k) (hno : ¬ act.Proposes s k)
      (hleaves : act.Leaves s k) : Turn s s' act k
  | given {body : ResourceTypes} {p : Bool} (hnone : s.resources k = none)
      (h : s'.resources k =
        some { id := k.2, resource := body, pending := p, pendingRemoval := false })
      (hp : p = true ↔ act.Proposes s k) (hleaves : act.Leaves s k) : Turn s s' act k
  | approved {res : ResourceInfo} (hres : s.resources k = some res)
      (h : s'.resources k = some { res with pending := false }) (hact : act.Approves s k) :
      Turn s s' act k
  | recalled {res : ResourceInfo} (hres : s.resources k = some res)
      (h : s'.resources k = some { res with pendingRemoval := true }) (hact : act.Recalls s k) :
      Turn s s' act k
  | removed {res : ResourceInfo} (hres : s.resources k = some res) (h : s'.resources k = none)
      (hact : act.Removes s k) : Turn s s' act k

/-! The four exclude each other. -/

theorem Act.not_proposes (h : ∀ body, ¬ act.Gives s k body) : ¬ act.Proposes s k := by
  rintro ⟨o, call, body, rfl, hadds, hnum, -⟩
  exact h body (.inl ⟨hadds, hnum⟩)

/-- An acceptance is a call of its own. -/
theorem Act.Approves.not_proposes (h : act.Approves s k) : ¬ act.Proposes s k := by
  obtain ⟨o, rfl, -⟩ := h
  exact Act.not_proposes fun body => Act.not_gives rfl rfl k body

theorem Act.Approves.not_recalls (h : act.Approves s k) : ¬ act.Recalls s k := by
  obtain ⟨o, rfl, -⟩ := h
  rintro ⟨o', hact, -⟩
  cases hact

theorem Act.Approves.not_removes (h : act.Approves s k) : ¬ act.Removes s k := by
  obtain ⟨o, rfl, -⟩ := h
  exact fun hremoves => hremoves.2

/-- So is the wish to remove. -/
theorem Act.Recalls.not_proposes (h : act.Recalls s k) : ¬ act.Proposes s k := by
  obtain ⟨o, rfl, -⟩ := h
  exact Act.not_proposes fun body => Act.not_gives rfl rfl k body

theorem Act.Recalls.not_removes (h : act.Recalls s k) : ¬ act.Removes s k := by
  obtain ⟨o, rfl, -, hno⟩ := h
  exact fun hremoves => hno hremoves.2.2

theorem Act.Removes.not_proposes (h : act.Removes s k) : ¬ act.Proposes s k := by
  rintro ⟨o, call, body, rfl, hadds, -⟩
  exact Act.not_removes_of_adds hadds h

/-- What leaves the stock alone leaves each resource alone. -/
theorem Act.leaves_of_stocks (hact : act.stocks = false) : act.Leaves s k := by
  refine ⟨?_, ?_, Act.not_removes_of_stocks hact⟩
  all_goals
    rintro ⟨o, rfl, -⟩
    cases hact

/-- A step that destroys nothing leaves every resource it does not name. -/
theorem Act.leaves_of_other {o : AccountId} {call : Call W} {q : NftKey × ResourceId}
    (hcall : call.regards = some q) (hk : k ≠ q) : (Act.signed o call).Leaves s k := by
  refine ⟨?_, ?_, ?_⟩
  · rintro ⟨o', hact, -⟩
    rw [(Act.signed.inj hact).2] at hcall
    exact hk (Option.some.inj hcall)
  · rintro ⟨o', hact, -⟩
    rw [(Act.signed.inj hact).2] at hcall
    exact hk (Option.some.inj hcall)
  · rintro ⟨-, hremoves⟩
    cases call <;> simp only [Call.regards, Option.some.injEq, reduceCtorEq] at hcall
    · exact hremoves
    · exact hk (hremoves.1.trans hcall)
    · exact hk (hremoves.trans hcall)

/-- So does what adds another. -/
theorem Act.leaves_of_adds {o : AccountId} {call : Call W} {q : NftKey × ResourceTypes}
    (hcall : call.adds = some q) : (Act.signed o call).Leaves s k := by
  refine ⟨?_, ?_, Act.not_removes_of_adds hcall⟩
  all_goals
    rintro ⟨o', hact, -⟩
    rw [(Act.signed.inj hact).2] at hcall
    cases hcall

/-- So does a mint. -/
theorem Act.leaves_of_mints {c : CollectionId} (hact : act.mintsInto = some c) :
    act.Leaves s k := by
  refine ⟨?_, ?_, Act.not_removes_of_mints hact⟩
  all_goals
    rintro ⟨o', rfl, -⟩
    cases hact

/-! ### The cases -/

/-- **A resource that is added** waits if the signer does not own the NFT at
the root. -/
theorem Added.turn {o : AccountId} {call : Call W} {x : NftKey} {resource : ResourceTypes}
    (hs : Shelved s) (hcall : call.adds = some (x, resource)) (h : Added o x resource false s s') :
    Turn s s' (.signed o call) k := by
  obtain ⟨a, hroot, hres⟩ := h.resources
  have hproposes : (Act.signed o call).Proposes s k ↔
      k = (x, s.nextResourceId x) ∧ ¬ RootOwner s x o := by
    constructor
    · rintro ⟨o', call', body, hact, hadds, hnum, hno⟩
      obtain ⟨rfl, rfl⟩ := Act.signed.inj hact
      obtain ⟨rfl, -⟩ := Prod.mk.inj (Option.some.inj (hcall.symm.trans hadds))
      exact ⟨Prod.ext rfl hnum, hno⟩
    · rintro ⟨rfl, hno⟩
      exact ⟨o, call, resource, rfl, hcall, rfl, hno⟩
  by_cases hk : k = (x, s.nextResourceId x)
  · subst hk
    refine .given (hs x _ (UInt32.le_refl _)) ((congrFun hres _).trans StorageMap.insert_self) ?_
      (Act.leaves_of_adds hcall)
    -- it waits unless who adds it owns the NFT at the root
    rw [hproposes]
    simp only [Bool.not_false, Bool.and_true, decide_eq_true_eq, true_and]
    exact not_congr ⟨fun ha => ha ▸ hroot, hroot.unique⟩
  · exact .same ((congrFun hres k).trans (StorageMap.insert_of_ne hk))
      (fun hp => hk (hproposes.1 hp).1) (Act.leaves_of_adds hcall)

/-- **The at-mint resources** wait for nobody. -/
theorem turn_of_addResources {o : AccountId} {call : Call W} {c : CollectionId} {t : State W}
    {l : Option (List ResourceTypes)} (hr : Reachable s)
    (hcall : (Act.signed o call).mintsInto = some c) (ht : t.resources = s.resources)
    (h : Core.addResources o (c, s.nextNftId c) l t = .ok () s') :
    Turn s s' (.signed o call) k := by
  have hno : ¬ (Act.signed o call).Proposes s k := by
    rintro ⟨o', call', body, hact, hadds, -⟩
    obtain ⟨rfl, rfl⟩ := Act.signed.inj hact
    simp [Act.adds_of_mints hcall] at hadds
  have hleaves : (Act.signed o call).Leaves s k := Act.leaves_of_mints hcall
  by_cases hk : k.1 = (c, s.nextNftId c)
  · have hnone : s.resources k = none := by
      refine Reachable.shelved hr k.1 k.2 ?_
      rw [nextResourceId_of_unissued hr (by rw [hk]; exact UInt32.le_refl _)]
      exact UInt32.zero_le
    have hnew : ∀ res, s'.resources k = some res →
        res = ⟨k.2, res.resource, false, false⟩ := by
      refine Core.addResources_preserves (P := fun t => ∀ res, t.resources k = some res →
        res = ⟨k.2, res.resource, false, false⟩)
        (fun t t' resource h hold res hres => ?_) h (by simp [ht, hnone])
      obtain ⟨a, -, hinsert⟩ := h.resources
      rw [hinsert, StorageMap.insert_apply] at hres
      split at hres
      · next hkey =>
          rw [← Option.some.inj hres, hkey]
          simp
      · exact hold res hres
    cases hnow : s'.resources k with
    | none => exact .same (hnow.trans hnone.symm) hno hleaves
    | some res =>
        exact .given (p := false) hnone (hnow.trans (congrArg some (hnew res hnow)))
          (iff_of_false (by simp) hno) hleaves
  · refine .same ?_ hno hleaves
    refine Core.addResources_preserves (P := fun t => t.resources k = s.resources k)
      (fun t t' resource h hold => ?_) h (congrFun ht k)
    obtain ⟨a, -, hinsert⟩ := h.resources
    rw [hinsert, StorageMap.insert_of_ne fun hkey => hk (congrArg Prod.fst hkey), hold]

/-- **A step has its turn with every resource.** -/
theorem Step.turn (hr : Reachable s) (hstep : Step s act s') : Turn s s' act k := by
  have hgives : ∀ {o : AccountId} {call : Call W}, call.adds = none →
      (Act.signed o call).mintsInto = none → ¬ (Act.signed o call).Proposes s k :=
    fun hadds hmints => Act.not_proposes fun body => Act.not_gives hadds hmints k body
  cases hstep.stocked with
  | same hact h =>
      exact .same (congrFun (congrArg (fun q => q.2.1) h) k)
        (Act.not_proposes fun _ => Act.not_gives_of_stocks hact) (Act.leaves_of_stocks hact)
  | added hcall h => exact h.turn (Reachable.shelved hr) hcall
  | minted hcall ht _ h => exact turn_of_addResources hr hcall (congrArg (fun q => q.2.1) ht) h
  | @accepted o x r res hroot hres _ h =>
      subst h
      by_cases hk : k = (x, r)
      · subst hk
        exact .approved hres StorageMap.insert_self ⟨o, rfl, hroot⟩
      · exact .same (StorageMap.insert_of_ne hk) (hgives rfl rfl) (Act.leaves_of_other rfl hk)
  | @removed o x r res _ hroot hres h =>
      subst h
      by_cases hk : k = (x, r)
      · subst hk
        exact .removed hres StorageMap.remove_self ⟨by simp [hres], rfl, hroot⟩
      · exact .same (StorageMap.remove_of_ne hk) (hgives rfl rfl) (Act.leaves_of_other rfl hk)
  | @asked o x r res hissuer hroot hres h =>
      subst h
      by_cases hk : k = (x, r)
      · subst hk
        exact .recalled hres (by simp [hres]) ⟨o, rfl, hissuer, hroot⟩
      · exact .same (StorageMap.mutate_of_ne hk) (hgives rfl rfl) (Act.leaves_of_other rfl hk)
  | @consented o x r res _ hres _ h =>
      subst h
      by_cases hk : k = (x, r)
      · subst hk
        exact .removed hres StorageMap.remove_self ⟨by simp [hres], rfl⟩
      · exact .same (StorageMap.remove_of_ne hk) (hgives rfl rfl) (Act.leaves_of_other rfl hk)
  | @burned _ x hact h =>
      have hno : ¬ act.Proposes s k := Act.not_proposes fun _ => Act.not_gives_of_destroys hact
      have hleaves : ¬ act.Removes s k → act.Leaves s k := by
        refine fun hremoves => ⟨?_, ?_, hremoves⟩
        all_goals
          rintro ⟨o', rfl, -⟩
          cases hact
      by_cases hk : Below s x k.1
      · have hgone : s'.resources k = none := h.below k.1 hk k.2
        cases hres : s.resources k with
        | none =>
            refine .same (hgone.trans hres.symm) hno (hleaves fun hremoves => ?_)
            simpa [hres] using hremoves.1
        | some res =>
            exact .removed hres hgone ((Act.removes_of_destroys hact).2 ⟨by simp [hres], hk⟩)
      · exact .same (h.elsewhere k.1 hk k.2) hno
          (hleaves fun hremoves => hk ((Act.removes_of_destroys hact).1 hremoves).2)

/-! ### How it stands after -/

/-- The resource waits for the owner. -/
def Waits (s : State W) (k : NftKey × ResourceId) : Prop :=
  ∃ res, s.resources k = some res ∧ res.pending = true

/-- The resource has been called back. -/
def CalledBack (s : State W) (k : NftKey × ResourceId) : Prop :=
  ∃ res, s.resources k = some res ∧ res.pendingRemoval = true

/-- What is not left alone is there. -/
theorem Turn.isSome_of_not_leaves (h : Turn s s' act k) (hact : ¬ act.Leaves s k) :
    (s.resources k).isSome = true := by
  cases h with
  | same _ _ hleaves => exact absurd hleaves hact
  | given _ _ _ hleaves => exact absurd hleaves hact
  | approved hres => simp [hres]
  | recalled hres => simp [hres]
  | removed hres => simp [hres]

/-- One step on, a resource waits if it did and was left to, or was proposed.
-/
theorem Turn.waits_iff (h : Turn s s' act k) : Waits s' k ↔
    Waits s k ∧ ¬ (act.Approves s k ∨ act.Removes s k) ∨ act.Proposes s k := by
  cases h with
  | same h hno hleaves => simp [Waits, h, hno, hleaves.approves, hleaves.removes]
  | given hnone h hp => simp [Waits, hnone, h, hp]
  | approved hres h hact => simp [Waits, h, hact, hact.not_proposes]
  | recalled hres h hact =>
      have happroves : ¬ act.Approves s k := fun h' => h'.not_recalls hact
      simp [Waits, hres, h, happroves, hact.not_proposes, hact.not_removes]
  | removed hres h hact => simp [Waits, h, hact, hact.not_proposes]

/-- And it is called back if it was, or is now. -/
theorem Turn.calledBack_iff (h : Turn s s' act k) : CalledBack s' k ↔
    CalledBack s k ∧ ¬ act.Removes s k ∨ act.Recalls s k := by
  cases h with
  | same h _ hleaves => simp [CalledBack, h, hleaves.recalls, hleaves.removes]
  | given hnone h _ hleaves => simp [CalledBack, hnone, h, hleaves.recalls]
  | approved hres h hact =>
      simp [CalledBack, hres, h, hact.not_recalls, hact.not_removes]
  | recalled hres h hact => simp [CalledBack, h, hact]
  | removed hres h hact =>
      have hrecalls : ¬ act.Recalls s k := fun h' => h'.not_removes hact
      simp [CalledBack, h, hact, hrecalls]

/-! ## Every run -/

/-- A resource is stored under its number. -/
theorem Reachable.resource_id (hr : Reachable s) (hres : s.resources k = some res) :
    res.id = k.2 := by
  revert res
  refine hr.invariant (P := fun s => ∀ {res}, s.resources k = some res → res.id = k.2)
    (fun s h0 res hres => ?_) fun s act s' hr hs hstep res hres => ?_
  · obtain ⟨w, -, -, rfl⟩ := h0
    cases hres
  · cases hstep.turn (k := k) hr with
    | same h => exact hs (h.symm.trans hres)
    | given _ h => rw [← Option.some.inj (h.symm.trans hres)]
    | approved hold h =>
        have hid := hs hold
        rwa [← Option.some.inj (h.symm.trans hres)]
    | recalled hold h =>
        have hid := hs hold
        rwa [← Option.some.inj (h.symm.trans hres)]
    | removed _ h => simp [h] at hres

/-- **A resource waits** if it was proposed, and neither approved nor taken
away since. -/
theorem waits_iff (hr : IsRun h s) : Waits s k ↔ Run.Past (fun s act => act.Proposes s k) h ∧
    ¬ Run.Past (fun s act => act.Approves s k ∨ act.Removes s k) h := by
  refine Run.past_not_past_iff (P := fun s => Waits s k) (fun s h0 => ?_)
    (fun s act s' hr hstep => (hstep.turn hr).waits_iff) (fun h s act s' hr hstep hact => ?_) hr
  · obtain ⟨w, -, -, rfl⟩ := h0
    rintro ⟨res, hres, -⟩
    cases hres
  · refine ⟨?_, fun hpast => ?_⟩
    · rintro (happroves | hremoves)
      · exact happroves.not_proposes hact
      · exact hremoves.not_proposes hact
    · -- the number is a new one
      have hlt : k.2 < s.nextResourceId k.1 := by
        refine lt_of_past (E := fun s act => act.Approves s k ∨ act.Removes s k)
          (fun s act s' hr hstep hE => ?_) hr hpast
        refine (hstep.turn hr).isSome_of_not_leaves fun hleaves => ?_
        exact hE.elim hleaves.approves hleaves.removes
      obtain ⟨o, call, body, -, -, hnum, -⟩ := hact
      rw [hnum] at hlt
      exact UInt32.lt_irrefl _ hlt

/-- **A resource has been called back** if it was, and has not been taken
away since. -/
theorem calledBack_iff (hr : IsRun h s) : CalledBack s k ↔
    Run.Past (fun s act => act.Recalls s k) h ∧ ¬ Removed h k := by
  refine Run.past_not_past_iff (P := fun s => CalledBack s k) (fun s h0 => ?_)
    (fun s act s' hr hstep => (hstep.turn hr).calledBack_iff)
    (fun h s act s' hr hstep hact => ?_) hr
  · obtain ⟨w, -, -, rfl⟩ := h0
    rintro ⟨res, hres, -⟩
    cases hres
  · -- what is there has not been taken away
    obtain ⟨res, hres⟩ :=
      Option.isSome_iff_exists.1
        ((hstep.turn hr.reachable).isSome_of_not_leaves fun hleaves => hleaves.recalls hact)
    have hbody : s.bodies k = some res.resource := congrArg (Option.map _) hres
    exact ⟨hact.not_removes, ((bodies_iff hr).1 hbody).2⟩

/-- **The resources are what the run has made of them**, each as it
stands. -/
theorem standing_iff (hr : IsRun h s) : s.resources k = some res ↔ Standing h k res := by
  have hstands : ∀ res, s.resources k = some res → Standing h k res := by
    intro res hres
    have hbody : s.bodies k = some res.resource := congrArg (Option.map _) hres
    obtain ⟨hgiven, hkept⟩ := (bodies_iff hr).1 hbody
    refine ⟨hgiven, hkept, Reachable.resource_id hr.reachable hres, ?_, ?_⟩
    · have hwaits : Waits s k ↔ res.pending = true := by simp [Waits, hres]
      have hsplit : Run.Past (fun s act => act.Approves s k ∨ act.Removes s k) h ↔
          Run.Past (fun s act => act.Approves s k) h ∨ Removed h k := by
        simp only [Removed, Run.Past, and_or_left, exists_or]
      rw [← hwaits, waits_iff hr, hsplit, or_iff_left hkept]
    · have hcalled : CalledBack s k ↔ res.pendingRemoval = true := by simp [CalledBack, hres]
      rw [← hcalled, calledBack_iff hr, and_iff_left hkept]
  refine ⟨hstands res, fun hres => ?_⟩
  obtain ⟨res', hres', hresource⟩ :=
    Option.map_eq_some_iff.1 ((bodies_iff hr).2 ⟨hres.given, hres.kept⟩)
  have hres'' := hstands res' hres'
  have hpending : res'.pending = res.pending :=
    Bool.eq_iff_iff.2 (hres''.pending.trans hres.pending.symm)
  have hremoval : res'.pendingRemoval = res.pendingRemoval :=
    Bool.eq_iff_iff.2 (hres''.pendingRemoval.trans hres.pendingRemoval.symm)
  have hid : res'.id = res.id := hres''.id.trans hres.id.symm
  cases res
  cases res'
  simp_all

namespace Mock

/-- Alice proposes a resource to her NFT that Bob owns, and he accepts it. -/
def acceptedByBob : List Extrinsic :=
  [(bob, .acceptResource (0, 0) 0), (alice, .addBasicResource (0, 0) ⟨none, none, none, none⟩),
    (alice, mintTo bob), (alice, newCollection)]

theorem standing_acceptedByBob : (replay acceptedByBob).resources ((0, 0), 0) =
    some ⟨0, .basic ⟨none, none, none, none⟩, false, false⟩ ↔
      Standing (history acceptedByBob) ((0, 0), 0)
        ⟨0, .basic ⟨none, none, none, none⟩, false, false⟩ :=
  standing_iff (isRun_replay (by decide +kernel))

end Mock

end Rmrk
