import Rmrk.Properties.Slots
/-!
# Who may empty a slot

A filled slot is emptied by the root owner of the equipper, by that of the
item in it, or by anyone once the item is gone. `equip` does not know the
item in the slot: it asks all this of the item the caller names. So the
rule is kept as long as callers other than the equipper's root owner name
the item that filled the slot.
-/

namespace Rmrk

variable {W : Type} [Config W] {s s' : State W} {act : Act W} {h : List (State W × Act W)}
variable {x : NftKey} {k : Slot} {o : AccountId}

/-! ## The property -/

/-- The filler of a slot: the item of the `equip` that filled it last. -/
def filler : List (State W × Act W) → Slot → Option NftKey
  | [], _ => none
  | (s, .signed _ (.equip item equipper _ b sl)) :: h, k =>
      if (equipper, b, sl) = k ∧ s.equippings k = none then some item else filler h k
  | _ :: h, k => filler h k

/-- **Who empties a slot may**: whoever signs a step that takes the entry
of a slot out is the root owner of the equipper or of the filler, unless
the filler is gone. -/
def Authorised (h : List (State W × Act W)) (s : State W) (act : Act W) : Prop :=
  ∀ s' k, Step s act s' → (s.equippings k).isSome = true → s'.equippings k = none →
    ∃ o c x, act = .signed o c ∧ filler h k = some x ∧
      (RootOwner s k.1 o ∨ RootOwner s x o ∨ s.nfts x = none)

/-- **Who empties a slot names its filler**, or is the root owner of the
equipper. -/
def NamesFiller (h : List (State W × Act W)) (s : State W) : Act W → Prop
  | .signed o (.equip item equipper _ b sl) =>
      (s.equippings (equipper, b, sl)).isSome = true →
        filler h (equipper, b, sl) = some item ∨ RootOwner s equipper o
  | _ => True

/-! ## Fillers -/

/-- A step that leaves the slots leaves them to their fillers. -/
theorem filler_of_filled (hfilled : (s.equippings k).isSome = true) :
    filler ((s, act) :: h) k = filler h k := by
  cases act with
  | between => rfl
  | signed o c =>
      cases c with
      | equip item equipper r b sl =>
          refine if_neg fun hempty => ?_
          simp [hempty.2] at hfilled
      | _ => rfl

/-- What fills a slot is its filler. -/
theorem filler_equip {item equipper : NftKey} {r : ResourceId} {b : BaseId} {sl : SlotId}
    (hempty : s.equippings (equipper, b, sl) = none) :
    filler ((s, .signed o (.equip item equipper r b sl)) :: h) (equipper, b, sl) = some item :=
  if_pos ⟨rfl, hempty⟩

/-- **What a step does to the slots**: `equip` empties a filled one, for
those it lets, or fills an empty one, and nothing else writes any. -/
theorem Step.slots (hstep : Step s act s') : s'.equippings = s.equippings ∨
    ∃ o item k r, act = .signed o (.equip item k.1 r k.2.1 k.2.2) ∧
      ((s.equippings k).isSome = true ∧ s'.equippings = Function.update s.equippings k none ∧
          (s.nfts item = none ∨ RootOwner s item o ∨ RootOwner s k.1 o) ∨
        s.equippings k = none ∧ s'.equippings = Function.update s.equippings k (some r)) := by
  cases hstep.outcome with
  | silent _ h => exact .inl h.equippings
  | noted _ h => exact .inl h.equippings
  | mintNft _ _ h => exact .inl h.equippings
  | mintNftDirectlyToNft _ _ _ h => exact .inl h.equippings
  | send h => exact .inl h.equippings
  | acceptNft h => exact .inl h.equippings
  | burnNft _ h => exact .inl h.equippings
  | rejectNft _ _ h => exact .inl h.equippings
  | @unequip o item equipper r b sl h hfilled =>
      have hby : s.nfts item = none ∨ RootOwner s item o ∨ RootOwner s equipper o := by
        rcases Equip.equip_ok hstep with ⟨-, -, hby⟩ | ⟨-, hempty, -⟩
        · exact hby
        · simp [hempty] at hfilled
      exact .inr ⟨o, item, (equipper, b, sl), r, rfl, .inl ⟨hfilled, h.equippings, hby⟩⟩
  | @equip o item equipper r b sl nft h hempty =>
      exact .inr ⟨o, item, (equipper, b, sl), r, rfl, .inr ⟨hempty, h.equippings⟩⟩
  | list _ _ _ h => exact .inl h.equippings
  | unlist _ h => exact .inl h.equippings
  | buy _ _ _ h => exact .inl h.equippings
  | acceptOffer _ h => exact .inl h.equippings

/-- **A filled slot has a filler.** -/
theorem filler_isSome (hr : IsRun h s) (hk : (s.equippings k).isSome = true) :
    (filler h k).isSome = true := by
  induction hr with
  | start h0 =>
      obtain ⟨w, -, -, rfl⟩ := h0
      simp [genesis] at hk
  | @step h s s' act _ hstep ih =>
      by_cases hfilled : (s.equippings k).isSome = true
      · rw [filler_of_filled hfilled]
        exact ih hfilled
      · -- the entry is the step's own
        rcases hstep.slots with hsame | ⟨o, item, k', r, rfl, ⟨-, hs', -⟩ | ⟨hempty, hs'⟩⟩
        · rw [hsame] at hk
          exact absurd hk hfilled
        · by_cases hne : k = k'
          · simp [hs', hne] at hk
          · rw [hs', Function.update_of_ne hne] at hk
            exact absurd hk hfilled
        · by_cases hne : k = k'
          · rw [hne, filler_equip hempty]
            rfl
          · rw [hs', Function.update_of_ne hne] at hk
            exact absurd hk hfilled

/-- Only `equip` empties a slot, the one it is called on. -/
theorem Step.emptied (hstep : Step s act s') (hfilled : (s.equippings k).isSome = true)
    (hempty : s'.equippings k = none) :
    ∃ o item r, act = .signed o (.equip item k.1 r k.2.1 k.2.2) ∧
      (s.nfts item = none ∨ RootOwner s item o ∨ RootOwner s k.1 o) := by
  rcases hstep.slots with hsame | ⟨o, item, k', r, rfl, ⟨-, hs', hby⟩ | ⟨hno, hs'⟩⟩
  · rw [← hsame, hempty] at hfilled
    simp at hfilled
  · by_cases hne : k = k'
    · subst hne
      exact ⟨o, item, r, rfl, hby⟩
    · rw [hs', Function.update_of_ne hne] at hempty
      simp [hempty] at hfilled
  · by_cases hne : k = k'
    · subst hne
      simp [hno] at hfilled
    · rw [hs', Function.update_of_ne hne] at hempty
      simp [hempty] at hfilled

/-! ## Every run -/

/-- One step under the condition keeps the rule. -/
theorem authorised_step (hr : IsRun h s) (hc : NamesFiller h s act) : Authorised h s act := by
  intro s' k hstep hfilled hempty
  obtain ⟨o, item, r, rfl, hby⟩ := hstep.emptied hfilled hempty
  obtain ⟨x, hx⟩ := Option.isSome_iff_exists.1 (filler_isSome hr hfilled)
  refine ⟨o, _, x, rfl, hx, ?_⟩
  rcases hc hfilled with hitem | hroot
  · -- the item asked about is the item in the slot
    obtain rfl : x = item := Option.some.inj (hx.symm.trans hitem)
    rcases hby with hgone | hroot | hroot
    · exact .inr (.inr hgone)
    · exact .inr (.inl hroot)
    · exact .inl hroot
  · exact .inl hroot

/-- **Slots over a run.** In a run whose steps all meet the condition,
each slot that is emptied is emptied by one who may. -/
theorem authorised_run (hr : IsRun h s) (hm : Run.Meets NamesFiller h) :
    Run.Meets Authorised h := by
  induction hr with
  | start => trivial
  | step hr _ ih => exact ⟨authorised_step hr hm.1, ih hm.2⟩

namespace Mock

/-- The slot Alice fills. -/
def aliceSlot : Slot := ((0, 0), 0, 1)

theorem filler_equipped : filler (history equipped) aliceSlot = some (0, 1) := by
  have hempty : (replay fitting).equippings aliceSlot = none := by decide +kernel
  exact filler_equip hempty

/-- Bob empties it: the item he names is not there. -/
def emptiedByBob : List Extrinsic := (bob, .equip (0, 9) (0, 0) 0 0 1) :: equipped

/-- **A slot emptied by a stranger**: item and equipper are Alice's. -/
theorem not_authorised_of_run : ¬ ∀ (h : List (State Storage × Act Storage)) (s : State Storage),
    IsRun h s → Run.Meets Authorised h := by
  intro hall
  have hret : returns (bob, .equip (0, 9) (0, 0) 0 0 1) (replay equipped) = true := by
    decide +kernel
  have hrun : IsRun (history emptiedByBob) (replay emptiedByBob) := isRun_replay (by decide +kernel)
  obtain ⟨o, c, x, hact, hx, hby⟩ := (hall _ _ hrun).1 (replay emptiedByBob) aliceSlot
    (step_apply hret) (by decide +kernel) (by decide +kernel)
  obtain rfl : bob = o := (Act.signed.inj hact).1
  obtain rfl : (0, 1) = x := Option.some.inj (filler_equipped.symm.trans hx)
  -- all of it is Alice's, and there
  have howner : (replay equipped).owner (0, 0) = some alice := by decide +kernel
  have hord : decodeNftAccountId alice = none := by decide +kernel
  have hparent : (replay equipped).parent (0, 1) = some (0, 0) := by decide +kernel
  have hno : ¬ RootOwner (replay equipped) (0, 0) bob := fun h =>
    absurd ((rootOwner_of_owner howner hord).1 h) (by decide +kernel)
  rcases hby with h | h | h
  · exact hno h
  · exact hno ((rootOwner_of_parent hparent).1 h)
  · have hthere : ((replay equipped).nfts (0, 1)).isSome = true := by decide +kernel
    simp [h] at hthere

/-- Alice empties it herself, and names the item. -/
def emptiedByAlice : List Extrinsic := (alice, .equip (0, 1) (0, 0) 0 0 1) :: equipped

theorem authorised_emptiedByAlice : Run.Meets Authorised (history emptiedByAlice) := by
  have hfitting : Run.Meets NamesFiller (history fitting) := by
    unfold fitting
    exact ⟨trivial, trivial, trivial, trivial, trivial, trivial, trivial, trivial⟩
  have hempty : (replay fitting).equippings aliceSlot = none := by decide +kernel
  refine authorised_run (h := history emptiedByAlice) (isRun_replay (by decide +kernel))
    (And.intro (fun _ => .inl filler_equipped) (And.intro (fun hfilled => ?_) hfitting))
  rw [show (replay fitting).equippings ((0, 0), 0, 1) = none from hempty] at hfilled
  simp at hfilled

end Mock

end Rmrk
