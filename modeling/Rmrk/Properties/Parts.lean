import Rmrk.Helpers.Catalog
import Rmrk.Mock.Replay
/-!
# Two copies of the parts of a base

`create_base` stores the parts of a base in `Bases` and, one by one, in
`Parts`. `equippable` writes the second copy only, and of parts with one
identifier the first keeps all and the second the last. The two copies
agree as long as no base has two parts under one identifier, and no slot
part is given another list than it has.
-/

namespace Rmrk

open Effect

variable {W : Type} {s s' : State W} {b : BaseId}

/-! ## The property -/

/-- **What is stored of a base is its parts**, each under its identifier,
and nothing else. -/
structure PartsOf (s : State W) (b : BaseId) (base : BaseInfo) : Prop where
  stored : ∀ p ∈ base.parts, s.parts (b, Equip.partId p) = some p
  nothingElse : ∀ i, (s.parts (b, i)).isSome = true → ∃ p ∈ base.parts, Equip.partId p = i

/-- **`Bases` and `Parts` agree.** -/
def PartsAgree (s : State W) : Prop := ∀ b base, s.bases b = some base → PartsOf s b base

variable [Config W] {act : Act W} {h : List (State W × Act W)}

/-- **No part is written over another**: the parts of a new base that have
one identifier are one part, and a slot part is given the list it has. -/
def KeepsParts (s : State W) : Act W → Prop
  | .signed _ (.createBase _ _ ps) =>
      ∀ p ∈ ps, ∀ q ∈ ps, Equip.partId p = Equip.partId q → p = q
  | .signed _ (.equippable b sl l) =>
      ∀ q, s.parts (b, sl) = some (.slotPart q) → q.equippable = l
  | _ => True

theorem keepsParts_of_catalogs (h : act.catalogs = false) : KeepsParts s act := by
  cases act with
  | between => trivial
  | signed o c => cases c <;> trivial

/-! ## One step -/

omit [Config W] in
theorem PartsOf.congr {base base' : BaseInfo} (hs : PartsOf s b base)
    (hparts : base'.parts = base.parts) (h : ∀ i, s'.parts (b, i) = s.parts (b, i)) :
    PartsOf s' b base' where
  stored p hp := (h _).trans (hs.stored p (hparts ▸ hp))
  nothingElse i hi := hparts ▸ hs.nothingElse i (h i ▸ hi)

omit [Config W] in
/-- **A new base agrees exactly if its parts have identifiers of their
own.** -/
theorem partsOf_created {ps : List PartType} {base : BaseInfo} (hs : Numbered s)
    (hbase : base.parts = ps) (h : Equip.Created ps s s') :
    PartsOf s' s.nextBaseId base ↔
      ∀ p ∈ ps, ∀ q ∈ ps, Equip.partId p = Equip.partId q → p = q := by
  subst hbase
  constructor
  · intro hp p hpm q hqm hid
    have hput := hp.stored p hpm
    rw [hid, hp.stored q hqm] at hput
    exact (Option.some.inj hput).symm
  · intro hps
    refine ⟨fun p hp => ?_, fun i hi => ?_⟩
    · rw [h.parts]
      rcases Equip.putParts_apply (b := s.nextBaseId) (m := s.parts) base.parts
        (Equip.partId p) with ⟨q, hq, hid, hput⟩ | ⟨hne, -⟩
      · rw [hput, hps q hq p hp hid]
      · exact absurd rfl (hne p hp)
    · rw [h.parts] at hi
      rcases Equip.putParts_apply (b := s.nextBaseId) (m := s.parts) base.parts i with
        ⟨q, hq, hid, -⟩ | ⟨-, hput⟩
      · exact ⟨q, hq, hid⟩
      · rw [hput, hs.parts _ i (UInt32.le_refl _)] at hi
        cases hi

omit [Config W] in
/-- **A list that is written agrees exactly if it was there.** -/
theorem partsAgree_equippable {sl : SlotId} {l : EquippableList} {q : SlotPart}
    (hs : PartsAgree s) (hbase : (s.bases b).isSome = true)
    (hpart : s.parts (b, sl) = some (.slotPart q)) (h : s' = { s with
      parts := s.parts.insert (b, sl) (.slotPart { q with equippable := l }) }) :
    PartsAgree s' ↔ q.equippable = l := by
  subst h
  constructor
  · intro hs'
    obtain ⟨base, hb⟩ := Option.isSome_iff_exists.1 hbase
    -- the part is in the list of the base, and there as it was
    obtain ⟨p, hp, hid⟩ := (hs b base hb).nothingElse sl (by simp [hpart])
    have hold := (hs b base hb).stored p hp
    have hnew : s.parts.insert (b, sl) (.slotPart { q with equippable := l })
        (b, Equip.partId p) = some p := (hs' b base hb).stored p hp
    rw [hid, hpart, Option.some.injEq] at hold
    rw [hid, StorageMap.insert_self, Option.some.injEq, ← hold, PartType.slotPart.injEq] at hnew
    exact (congrArg SlotPart.equippable hnew).symm
  · rintro rfl
    have hsame : s.parts.insert (b, sl) (.slotPart q) = s.parts := by
      funext k
      rw [StorageMap.insert_apply]
      split
      · next hk => rw [hk, hpart]
      · rfl
    exact fun b' base hb => (hs b' base hb).congr rfl fun i => congrFun hsame (b', i)

/-- **One step keeps the copies in step exactly if it meets the
condition.** -/
theorem partsAgree_step (hn : Numbered s) (hs : PartsAgree s) (hstep : Step s act s') :
    PartsAgree s' ↔ KeepsParts s act := by
  cases hstep.catalogued with
  | same hact h =>
      simp only [Same, State.catalog, Prod.mk.injEq] at h
      refine iff_of_true (fun b base hb => ?_) (keepsParts_of_catalogs hact)
      exact (hs b base (h.1 ▸ hb)).congr rfl fun i => by rw [h.2.1]
  | @created o bt sy ps h =>
      obtain ⟨base, hbase, hbases⟩ := h.bases
      rw [KeepsParts, ← partsOf_created hn hbase h]
      constructor
      · exact fun hs' => hs' _ base (by rw [hbases, StorageMap.insert_self])
      · intro hnew b base' hb
        rw [hbases] at hb
        rcases StorageMap.insert_eq_some_iff.1 hb with ⟨rfl, rfl⟩ | ⟨hne, hb⟩
        · exact hnew
        · exact (hs b base' hb).congr rfl fun i => by rw [h.parts, Equip.putParts_of_ne hne]
  | @equippable o b sl l q hbase hpart h =>
      rw [partsAgree_equippable hs hbase hpart h]
      simp [KeepsParts, hpart]
  | issuerChanged h =>
      subst h
      refine iff_of_true (fun b base' hb => ?_) trivial
      obtain ⟨base, hbase, rfl | rfl⟩ := StorageMap.exists_of_mutate_eq_some hb
      · exact (hs b _ hbase).congr rfl fun _ => rfl
      · exact (hs b _ hbase).congr rfl fun _ => rfl

/-! ## Every run -/

/-- **The parts over a run.** The two copies agree in all its states
exactly if no part is written over another in it. -/
theorem partsAgree_throughout_iff (hr : IsRun h s) :
    Run.Throughout PartsAgree h s ↔ ∀ e ∈ h, KeepsParts e.1 e.2 := by
  refine Run.throughout_iff (fun s h0 => ?_) ?_ hr
  · obtain ⟨w, -, -, rfl⟩ := h0
    intro b base hb
    simp [genesis] at hb
  · exact fun s act s' hr hs hstep => partsAgree_step (Reachable.basesNumbered hr) hs hstep

/-! ## Runs with and without a part written over -/

namespace Mock

/-- A slot open to all. -/
def openSlot : PartType := .slotPart ⟨1, .all, none, 0⟩

/-- Alice closes the slot of a base of hers. -/
def closed : List Extrinsic :=
  [(alice, .equippable 0 1 .empty), (alice, .createBase [] [] [openSlot])]

/-- **A stale copy**: `Bases` has the slot open. -/
theorem not_partsAgree_of_run : ¬ ∀ (h : List (State Storage × Act Storage)) (s : State Storage),
    IsRun h s → (∀ e ∈ h, ∃ o c, e.2 = .signed o c ∧ c.pallet = .equip) → PartsAgree s := by
  intro hall
  have hs := hall (history closed) _ (isRun_replay (by decide +kernel)) (by
    simp [closed, history, Call.pallet])
  have hbase : ((replay closed).bases 0).map BaseInfo.parts = some [openSlot] := by decide +kernel
  obtain ⟨base, hb, hparts⟩ := Option.map_eq_some_iff.1 hbase
  have hstored := (hs 0 base hb).stored openSlot (by simp [hparts])
  exact absurd hstored (by decide +kernel)

/-- She opens it to all, as it is. -/
def opened : List Extrinsic :=
  [(alice, .equippable 0 1 .all), (alice, .createBase [] [] [openSlot])]

theorem partsAgree_opened : Run.Throughout PartsAgree (history opened) (replay opened) := by
  refine (partsAgree_throughout_iff (isRun_replay (by decide +kernel))).2 ?_
  simp only [opened, history, List.forall_mem_cons, List.not_mem_nil, false_imp_iff,
    implies_true, and_true]
  refine ⟨fun q hq => ?_, fun p hp q hq _ => ?_⟩
  · have hpart : (replay [(alice, .createBase [] [] [openSlot])]).parts (0, 1) =
        some openSlot := by decide +kernel
    rw [hpart, Option.some.injEq, openSlot, PartType.slotPart.injEq] at hq
    exact hq ▸ rfl
  · rw [List.mem_singleton] at hp hq
    rw [hp, hq]

end Mock

end Rmrk
