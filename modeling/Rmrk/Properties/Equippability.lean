import Rmrk.Helpers.Given
import Rmrk.Mock.Replay
/-!
# What can be equipped where

`rmrk-equip` does not look at a resource. It asks two indexes, one of the
bases an NFT has a composable resource on, shared by all its resources,
and one of the slots each resource is for. `resource_add` writes both,
and nothing takes an entry out: they match the resources as long as what
is removed leaves no entry behind.
-/

namespace Rmrk

open Effect

variable {W : Type} {s s' : State W} {x y : NftKey} {o : AccountId} {r : ResourceId}

/-! ## The property -/

/-- **The indexes match the resources.** -/
structure Entered (s : State W) : Prop where
  bases : ∀ x b, (s.equippableBases (x, b)).isSome = true ↔
    ∃ r body, s.bodies (x, r) = some body ∧ body.composableBase = some b
  slots : ∀ x r q, (s.equippableSlots (x, r, q)).isSome = true ↔
    ∃ body, s.bodies (x, r) = some body ∧ body.designated = some q

/-- No entry hangs on the resource `r` of `x` alone. -/
def Spare (s : State W) (x : NftKey) (r : ResourceId) : Prop :=
  ∀ body, s.bodies (x, r) = some body → body.designated = none ∧
    ∀ b, body.composableBase = some b → ∃ r' body', r' ≠ r ∧ s.bodies (x, r') = some body' ∧
      body'.composableBase = some b

/-- No entry hangs on the resources of `x`. -/
def Unindexed (s : State W) (x : NftKey) : Prop :=
  ∀ r body, s.bodies (x, r) = some body → body.composableBase = none ∧ body.designated = none

variable [Config W] {act : Act W} {h : List (State W × Act W)}

/-- **What is removed leaves no entry behind.** -/
def LeavesNoEntry (s : State W) : Act W → Prop
  | .signed o (.removeResource x r) => RootOwner s x o → Spare s x r
  | .signed _ (.acceptResourceRemoval x r) => Spare s x r
  | .signed _ (.burnNft x _) | .signed _ (.rejectNft x) => ∀ y, Below s x y → Unindexed s y
  | _ => True

theorem leavesNoEntry_of_stocks (hact : act.stocks = false) : LeavesNoEntry s act := by
  cases act with
  | between => trivial
  | signed o call => cases call <;> trivial

theorem leavesNoEntry_of_adds {call : Call W} {q : NftKey × ResourceTypes}
    (hcall : call.adds = some q) : LeavesNoEntry s (.signed o call) := by
  cases call <;> trivial

theorem leavesNoEntry_of_mints {c : CollectionId} (hact : act.mintsInto = some c) :
    LeavesNoEntry s act := by
  cases act with
  | between => trivial
  | signed o call => cases call <;> trivial

theorem leavesNoEntry_of_destroys (hact : act.destroys = some x) :
    LeavesNoEntry s act ↔ ∀ y, Below s x y → Unindexed s y := by
  cases act with
  | between => simp [Act.destroys] at hact
  | signed o call =>
      cases call <;> simp only [Act.destroys, Option.some.injEq, reduceCtorEq] at hact
      all_goals exact hact ▸ Iff.rfl

/-! ## One step -/

omit [Config W] in
/-- **What only gives enters what it gives.** -/
theorem Turnover.entered {G : NftKey × ResourceId → ResourceTypes → Prop}
    (h : Turnover G (fun _ => False) s s') (hs : Entered s) : Entered s' where
  bases x b := by
    rw [h.bases, hs.bases]
    simp only [h.bodies, not_false_eq_true, and_true, or_and_right, exists_or]
  slots x r q := by
    rw [h.slots, hs.slots]
    simp only [h.bodies, not_false_eq_true, and_true, or_and_right, exists_or]

theorem entered_of_not_removes (hr : Reachable s) (hs : Entered s) (hstep : Step s act s')
    (hno : ∀ k, ¬ act.Removes s k) : Entered s' :=
  ((hstep.turnover hr).congr (fun _ _ => Iff.rfl) fun k => iff_of_false id (hno k)).entered hs

omit [Config W] in
/-- **A removal keeps the indexes exactly if the resource is spare.** -/
theorem entered_remove_iff {res : ResourceInfo} (hs : Entered s)
    (hres : s.resources (x, r) = some res)
    (h : s' = { s with resources := s.resources.remove (x, r) }) : Entered s' ↔ Spare s x r := by
  have hbodies : s'.bodies = s.bodies.remove (x, r) := bodies_remove (by rw [h])
  have hold : ∀ {k body}, s'.bodies k = some body ↔ k ≠ (x, r) ∧ s.bodies k = some body :=
    fun {k body} => by rw [hbodies, StorageMap.remove_eq_some_iff]
  have hbases : s'.equippableBases = s.equippableBases := by rw [h]
  have hslots : s'.equippableSlots = s.equippableSlots := by rw [h]
  constructor
  · intro hs' body hbody
    constructor
    · -- the entry of its slot would be left
      cases hq : body.designated with
      | none => rfl
      | some q =>
          have hin := (hs.slots x r q).2 ⟨body, hbody, hq⟩
          rw [← hslots, hs'.slots] at hin
          obtain ⟨body', hbody', -⟩ := hin
          exact absurd rfl (hold.1 hbody').1
    · intro b hb
      have hin := (hs.bases x b).2 ⟨r, body, hbody, hb⟩
      rw [← hbases, hs'.bases] at hin
      obtain ⟨r', body', hbody', hb'⟩ := hin
      obtain ⟨hne, hbody'⟩ := hold.1 hbody'
      exact ⟨r', body', fun hr => hne (hr ▸ rfl), hbody', hb'⟩
  · intro hspare
    constructor
    · intro y b
      rw [hbases, hs.bases]
      constructor
      · rintro ⟨r', body, hbody, hb⟩
        by_cases hk : (y, r') = (x, r)
        · obtain ⟨rfl, rfl⟩ := Prod.mk.inj hk
          obtain ⟨r'', body', hne, hbody', hb'⟩ := (hspare body hbody).2 b hb
          exact ⟨r'', body', hold.2 ⟨fun hk => hne (congrArg Prod.snd hk), hbody'⟩, hb'⟩
        · exact ⟨r', body, hold.2 ⟨hk, hbody⟩, hb⟩
      · rintro ⟨r', body, hbody, hb⟩
        exact ⟨r', body, (hold.1 hbody).2, hb⟩
    · intro y r' q
      rw [hslots, hs.slots]
      constructor
      · rintro ⟨body, hbody, hq⟩
        refine ⟨body, hold.2 ⟨fun hk => ?_, hbody⟩, hq⟩
        rw [hk] at hbody
        simp [(hspare body hbody).1] at hq
      · rintro ⟨body, hbody, hq⟩
        exact ⟨body, (hold.1 hbody).2, hq⟩

omit [Config W] in
/-- **A burn keeps them exactly if nothing it burns is entered.** -/
theorem entered_cleared_iff (hs : Entered s) (h : Cleared x s s') :
    Entered s' ↔ ∀ y, Below s x y → Unindexed s y := by
  have hgone : ∀ {y}, Below s x y → ∀ r, s'.bodies (y, r) = none := fun hy r =>
    congrArg (Option.map _) (h.below _ hy r)
  have hold : ∀ {y}, ¬ Below s x y → ∀ r, s'.bodies (y, r) = s.bodies (y, r) := fun hy r =>
    congrArg (Option.map _) (h.elsewhere _ hy r)
  constructor
  · intro hs' y hy r body hbody
    constructor
    · cases hb : body.composableBase with
      | none => rfl
      | some b =>
          have hin := (hs.bases y b).2 ⟨r, body, hbody, hb⟩
          rw [← h.equippableBases, hs'.bases] at hin
          obtain ⟨r', body', hbody', -⟩ := hin
          simp [hgone hy] at hbody'
    · cases hq : body.designated with
      | none => rfl
      | some q =>
          have hin := (hs.slots y r q).2 ⟨body, hbody, hq⟩
          rw [← h.equippableSlots, hs'.slots] at hin
          obtain ⟨body', hbody', -⟩ := hin
          simp [hgone hy] at hbody'
  · intro hun
    constructor
    · intro y b
      rw [h.equippableBases, hs.bases]
      by_cases hy : Below s x y
      · refine iff_of_false ?_ ?_
        · rintro ⟨r, body, hbody, hb⟩
          simp [(hun y hy r body hbody).1] at hb
        · rintro ⟨r, body, hbody, -⟩
          simp [hgone hy] at hbody
      · simp only [hold hy]
    · intro y r q
      rw [h.equippableSlots, hs.slots]
      by_cases hy : Below s x y
      · refine iff_of_false ?_ ?_
        · rintro ⟨body, hbody, hq⟩
          simp [(hun y hy r body hbody).2] at hq
        · rintro ⟨body, hbody, -⟩
          simp [hgone hy] at hbody
      · simp only [hold hy]

/-- **One step keeps the indexes exactly if it leaves no entry behind.** -/
theorem entered_step (hr : Reachable s) (hs : Entered s) (hstep : Step s act s') :
    Entered s' ↔ LeavesNoEntry s act := by
  cases hstep.stocked with
  | same hact =>
      refine iff_of_true ?_ (leavesNoEntry_of_stocks hact)
      exact entered_of_not_removes hr hs hstep fun _ => Act.not_removes_of_stocks hact
  | added hcall =>
      refine iff_of_true ?_ (leavesNoEntry_of_adds hcall)
      exact entered_of_not_removes hr hs hstep fun _ => Act.not_removes_of_adds hcall
  | minted hcall =>
      refine iff_of_true ?_ (leavesNoEntry_of_mints hcall)
      exact entered_of_not_removes hr hs hstep fun _ => Act.not_removes_of_mints hcall
  | accepted =>
      exact iff_of_true (entered_of_not_removes hr hs hstep fun _ hk => hk.2) trivial
  | removed _ hroot hres h =>
      rw [entered_remove_iff hs hres h]
      exact ⟨fun hspare _ => hspare, fun hspare => hspare hroot⟩
  | asked _ hroot =>
      refine iff_of_true ?_ fun hyes => absurd hyes hroot
      exact entered_of_not_removes hr hs hstep fun _ hk => hroot hk.2.2
  | consented _ hres _ h => exact entered_remove_iff hs hres h
  | burned hact h => rw [entered_cleared_iff hs h, leavesNoEntry_of_destroys hact]

/-! ## Every run -/

/-- **The indexes over a run.** They match the resources in all its states
exactly if nothing that is removed in it leaves an entry behind. -/
theorem entered_throughout_iff (hr : IsRun h s) :
    Run.Throughout Entered h s ↔ ∀ e ∈ h, LeavesNoEntry e.1 e.2 := by
  refine Run.throughout_iff (fun s h0 => ?_) (fun s act s' => entered_step) hr
  obtain ⟨w, -, -, rfl⟩ := h0
  constructor <;> intros <;> simp [genesis, State.bodies]

/-- **The indexes at the end of a run.** They match the resources exactly
if nothing that has been removed in it was for a slot, and of the resources
on a base that an NFT has been given in it one has not been removed. -/
theorem entered_iff (hr : IsRun h s) : Entered s ↔
    (∀ x r body b, Given h (x, r) body → body.composableBase = some b →
      ∃ r' body', Given h (x, r') body' ∧ body'.composableBase = some b ∧ ¬ Removed h (x, r')) ∧
    ∀ x r body q, Given h (x, r) body → body.designated = some q → ¬ Removed h (x, r) := by
  constructor
  · intro hs
    refine ⟨fun x r body b hgiven hb => ?_, fun x r body q hgiven hq => ?_⟩
    · obtain ⟨r', body', hbody', hb'⟩ :=
        (hs.bases x b).1 ((equippableBases_iff hr).2 ⟨r, body, hgiven, hb⟩)
      obtain ⟨hgiven', hkept⟩ := (bodies_iff hr).1 hbody'
      exact ⟨r', body', hgiven', hb', hkept⟩
    · obtain ⟨body', hbody', -⟩ :=
        (hs.slots x r q).1 ((equippableSlots_iff hr).2 ⟨body, hgiven, hq⟩)
      exact ((bodies_iff hr).1 hbody').2
  · rintro ⟨hbases, hslots⟩
    refine ⟨fun x b => ?_, fun x r q => ?_⟩
    · rw [equippableBases_iff hr]
      constructor
      · rintro ⟨r, body, hgiven, hb⟩
        obtain ⟨r', body', hgiven', hb', hkept⟩ := hbases x r body b hgiven hb
        exact ⟨r', body', (bodies_iff hr).2 ⟨hgiven', hkept⟩, hb'⟩
      · rintro ⟨r, body, hbody, hb⟩
        exact ⟨r, body, ((bodies_iff hr).1 hbody).1, hb⟩
    · rw [equippableSlots_iff hr]
      constructor
      · rintro ⟨body, hgiven, hq⟩
        exact ⟨body, (bodies_iff hr).2 ⟨hgiven, hslots x r body q hgiven hq⟩, hq⟩
      · rintro ⟨body, hbody, hq⟩
        exact ⟨body, ((bodies_iff hr).1 hbody).1, hq⟩

/-! ## Runs with and without an entry left behind -/

namespace Mock

/-- Alice removes the one resource of an NFT of hers, which is for a slot. -/
def unslotted : List Extrinsic :=
  [(alice, .removeResource (0, 0) 0),
    (alice, .addSlotResource (0, 0) ⟨0, none, none, 1, none, none⟩),
    (alice, mintTo alice), (alice, newCollection)]

/-- **A stale entry**: the resource is gone, and can be equipped. -/
theorem not_entered_of_run : ¬ ∀ (h : List (State Storage × Act Storage)) (s : State Storage),
    IsRun h s → (∀ e ∈ h, ∃ o c, e.2 = .signed o c ∧ c.pallet = .core) → Entered s := by
  intro hall
  have hs := hall (history unslotted) _ (isRun_replay (by decide +kernel)) (by
    simp [unslotted, history, Call.pallet, mintTo, newCollection])
  have hin : ((replay unslotted).equippableSlots ((0, 0), 0, 0, 1)).isSome = true := by
    decide +kernel
  have hgone : (replay unslotted).resources ((0, 0), 0) = none := by decide +kernel
  obtain ⟨body, hbody, -⟩ := (hs.slots (0, 0) 0 (0, 1)).1 hin
  simp [State.bodies, hgone] at hbody

/-- A composable resource on the base `0`, for no slot. -/
def onBase : ComposableResource := ⟨[], 0, none, none, none, none, none⟩

/-- An NFT of Alice's has two of them. -/
def doubled : List Extrinsic :=
  [(alice, .addComposableResource (0, 0) onBase), (alice, .addComposableResource (0, 0) onBase),
    (alice, mintTo alice), (alice, newCollection)]

/-- She removes the first. -/
theorem entered_doubled : Run.Throughout Entered
    (history ((alice, .removeResource (0, 0) 0) :: doubled))
      (replay ((alice, .removeResource (0, 0) 0) :: doubled)) := by
  refine (entered_throughout_iff (isRun_replay (by decide +kernel))).2 ?_
  simp only [doubled, history, List.forall_mem_cons, List.not_mem_nil, false_imp_iff,
    implies_true, and_true]
  refine ⟨fun _ body hbody => ?_, trivial, trivial, trivial, trivial⟩
  have hfirst : (replay doubled).bodies ((0, 0), 0) = some (.composable onBase) := by decide +kernel
  have hsecond : (replay doubled).bodies ((0, 0), 1) = some (.composable onBase) := by
    decide +kernel
  obtain rfl := Option.some.inj (hfirst.symm.trans hbody)
  exact ⟨rfl, fun b hb => ⟨1, _, by decide, hsecond, hb⟩⟩

end Mock

end Rmrk
