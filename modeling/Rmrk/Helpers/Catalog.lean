import Rmrk.Common.Counter
import Rmrk.Common.Writes
import Rmrk.Helpers.Frames
/-!
# What a step does to the bases

The bases, their parts and the number the next base is given. Three calls
write them: one puts a base in and its parts beside it, one writes a slot
part over, and one a base.
-/

namespace Rmrk

open Counter Effect

variable {W : Type} {s s' : State W} {o : AccountId} {b : BaseId} {u : Unit}

/-- The bases, their parts, and the number of the next one. -/
def State.catalog (s : State W) := (s.bases, s.parts, s.nextBaseId)

/-! ## Storing the parts -/

namespace Equip

/-- The parts of a base, each put under its identifier, the last over the
first. -/
def putParts (b : BaseId) (m : StorageMap (BaseId × PartId) PartType) :
    List PartType → StorageMap (BaseId × PartId) PartType
  | [] => m
  | p :: ps => putParts b (m.insert (b, partId p) p) ps

theorem putParts_ok {ps : List PartType}
    (h : each (fun part => update fun s => { s with
      parts := s.parts.insert (b, partId part) part }) ps s =
        (.ok u s' : EStateM.Result Abort _ _)) :
    s' = { s with parts := putParts b s.parts ps } := by
  induction ps generalizing s with
  | nil => exact (pure_ok.1 h).2.symm
  | cons p ps ih =>
      simp only [each, update_bind_ok] at h
      exact ih h

variable {m : StorageMap (BaseId × PartId) PartType} {ps : List PartType} {i : PartId}

/-- As writes in a row. -/
theorem putParts_eq : putParts b m ps = m.insertAll (ps.map fun p => ((b, partId p), p)) := by
  induction ps generalizing m with
  | nil => rfl
  | cons p ps ih => exact ih

theorem putParts_of_ne {d : BaseId} (hd : d ≠ b) : putParts b m ps (d, i) = m (d, i) := by
  rw [putParts_eq]
  refine StorageMap.insertAll_of_ne fun e he heq => hd ?_
  obtain ⟨p, -, rfl⟩ := List.mem_map.1 he
  exact (congrArg Prod.fst heq).symm

/-- **What is stored under an identifier** is a part that has it, where
there is one, and else what was there. -/
theorem putParts_apply (ps : List PartType) (i : PartId) :
    (∃ q ∈ ps, partId q = i ∧ putParts b m ps (b, i) = some q) ∨
      (∀ p ∈ ps, partId p ≠ i) ∧ putParts b m ps (b, i) = m (b, i) := by
  rw [putParts_eq]
  rcases StorageMap.insertAll_apply m (ps.map fun p => ((b, partId p), p)) (b, i) with
    ⟨q, hmem, hput⟩ | ⟨hne, hput⟩
  · obtain ⟨p, hp, heq⟩ := List.mem_map.1 hmem
    obtain ⟨⟨-, hid⟩, rfl⟩ : ((b, partId p) = (b, i)) ∧ p = q := by simpa using heq
    exact .inl ⟨p, hp, rfl, hput⟩
  · refine .inr ⟨fun p hp hid => ?_, hput⟩
    exact hne _ (List.mem_map_of_mem hp) (congrArg (Prod.mk b) hid)

/-! ## The calls that write a base -/

/-- A base has been put in, with its parts. -/
structure Created (ps : List PartType) (s s' : State W) : Prop where
  room : s.nextBaseId.toNat + 1 < UInt32.size
  nextBaseId : s'.nextBaseId = s.nextBaseId + 1
  bases : ∃ base : BaseInfo, base.parts = ps ∧ s'.bases = s.bases.insert s.nextBaseId base
  parts : s'.parts = putParts s.nextBaseId s.parts ps

/-- All that `create_base` writes. -/
theorem createBase_writes {bt sy : BoundedString} (h : createBase o bt sy ps s = .ok u s') :
    s.nextBaseId.toNat + 1 < UInt32.size ∧ s' = { s with
      nextBaseId := s.nextBaseId + 1
      bases := s.bases.insert s.nextBaseId
        { issuer := o, baseType := bt, symbol := sy, parts := ps }
      parts := putParts s.nextBaseId s.parts ps } := by
  simp only [createBase, baseCreate, getNextBaseId, bind_assoc, get_bind_ok, okOr_bind_ok,
    update_bind_ok, pure_bind_ok] at h
  obtain ⟨id, hid, h⟩ := h
  rw [bind_ok] at h
  obtain ⟨_, s₁, hparts, h⟩ := h
  obtain rfl := putParts_ok hparts
  simp only [update_bind_ok, pure_bind_ok, pure_ok, true_and] at h
  subst h
  simp only [checkedAdd, Option.ite_none_right_eq_some, Option.some.injEq] at hid
  obtain ⟨hroom, rfl⟩ := hid
  exact ⟨hroom, rfl⟩

theorem createBase_created {bt sy : BoundedString} (h : createBase o bt sy ps s = .ok u s') :
    Created ps s s' := by
  obtain ⟨hroom, rfl⟩ := createBase_writes h
  exact ⟨hroom, rfl, ⟨_, rfl, rfl⟩, rfl⟩

/-! Both calls on a base that is there are its issuer's. -/

theorem equippable_checks {sl : SlotId} {l : EquippableList}
    (h : equippable o b sl l s = .ok u s') :
    ∃ base q, s.bases b = some base ∧ base.issuer = o ∧ s.parts (b, sl) = some (.slotPart q) ∧
      s' = { s with parts := s.parts.insert (b, sl) (.slotPart { q with equippable := l }) } := by
  simp only [equippable, doEquippable, get_bind_ok, okOr_bind_ok, ensure_bind_ok] at h
  obtain ⟨base, hbase, hissuer, part, hpart, h⟩ := h
  cases part with
  | fixedPart p => simp at h
  | slotPart p => exact ⟨base, p, hbase, hissuer, hpart, (update_ok.1 h).symm⟩

theorem equippable_writes {sl : SlotId} {l : EquippableList}
    (h : equippable o b sl l s = .ok u s') :
    ∃ q, (s.bases b).isSome = true ∧ s.parts (b, sl) = some (.slotPart q) ∧ s' = { s with
      parts := s.parts.insert (b, sl) (.slotPart { q with equippable := l }) } := by
  obtain ⟨base, q, hbase, -, hpart, h⟩ := equippable_checks h
  exact ⟨q, by simp [hbase], hpart, h⟩

theorem changeBaseIssuer_checks [Config W] {source : Config.Source W}
    (h : changeBaseIssuer o b source s = .ok u s') :
    ∃ base a, s.bases b = some base ∧ base.issuer = o ∧ Config.lookup source = .ok a ∧
      s' = { s with bases := s.bases.mutate b fun base => { base with issuer := a } } := by
  simp only [changeBaseIssuer, baseChangeIssuer, bind_assoc, get_bind_ok, okOr_bind_ok,
    ensure_bind_ok, update_bind_ok, pure_bind_ok, ofResult_bind_ok, pure_ok, true_and] at h
  obtain ⟨base, hbase, hissuer, a, ha, -, -, rfl⟩ := h
  refine ⟨base, a, hbase, hissuer, ?_, rfl⟩
  cases hl : Config.lookup source with
  | ok b => simpa [hl, Except.mapError] using ha
  | error e => simp [hl, Except.mapError] at ha

theorem changeBaseIssuer_writes [Config W] {source : Config.Source W}
    (h : changeBaseIssuer o b source s = .ok u s') :
    ∃ a, s' = { s with bases := s.bases.mutate b fun base => { base with issuer := a } } := by
  obtain ⟨base, a, -, -, -, h⟩ := changeBaseIssuer_checks h
  exact ⟨a, h⟩

end Equip

/-! ## Every step -/

variable [Config W] {act : Act W}

/-- The extrinsics that write the bases. -/
def Call.catalogs : Call W → Bool
  | .createBase .. | .equippable .. | .changeBaseIssuer .. => true
  | _ => false

/-- The steps that do. -/
def Act.catalogs : Act W → Bool
  | .signed _ c => c.catalogs
  | .between .. => false

theorem dispatch_catalog {call : Call W} (hcall : call.catalogs = false) :
    Within (Same State.catalog) (dispatch o call) := by
  by_cases hnfts : call.ofNfts = true
  · refine Lax.dispatch ?_ hnfts
    constructor <;> intros <;> first | rfl | (constructor <;> intros <;> rfl)
  · cases call with
    | createCollection =>
        exact Core.within_createCollection (fun _ _ => rfl) (fun _ _ => rfl) fun _ _ _ _ => rfl
    | destroyCollection => exact Core.within_destroyCollection (fun _ _ => rfl) fun _ _ _ _ => rfl
    | changeCollectionIssuer =>
        exact Core.within_changeCollectionIssuer (fun _ _ => rfl) fun _ _ _ _ _ => rfl
    | _ => first | exact absurd rfl hnfts | simp [Call.catalogs] at hcall

/-- **What a step does to the bases**, by its label. -/
inductive Catalogued (s s' : State W) : Act W → Prop
  | same {act : Act W} (hact : act.catalogs = false) (h : Same State.catalog s s') :
      Catalogued s s' act
  | created {o : AccountId} {bt sy : BoundedString} {ps : List PartType}
      (h : Equip.Created ps s s') : Catalogued s s' (.signed o (.createBase bt sy ps))
  | equippable {o : AccountId} {b : BaseId} {sl : SlotId} {l : EquippableList} {q : SlotPart}
      (hbase : (s.bases b).isSome = true) (hpart : s.parts (b, sl) = some (.slotPart q))
      (h : s' = { s with
        parts := s.parts.insert (b, sl) (.slotPart { q with equippable := l }) }) :
      Catalogued s s' (.signed o (.equippable b sl l))
  | issuerChanged {o a : AccountId} {b : BaseId} {source : Config.Source W}
      (h : s' = { s with bases := s.bases.mutate b fun base => { base with issuer := a } }) :
      Catalogued s s' (.signed o (.changeBaseIssuer b source))

/-- **Every step has its effect on the bases.** -/
theorem Step.catalogued (hstep : Step s act s') : Catalogued s s' act := by
  cases act with
  | between n w =>
      obtain ⟨-, -, rfl⟩ := hstep
      exact .same rfl rfl
  | signed o call =>
      have h : dispatch o call s = .ok () s' := hstep
      by_cases hc : call.catalogs = false
      · exact .same hc (dispatch_catalog hc _ _ _ h)
      · cases call with
        | createBase => exact .created (Equip.createBase_created h)
        | equippable =>
            obtain ⟨q, hbase, hpart, h⟩ := Equip.equippable_writes h
            exact .equippable hbase hpart h
        | changeBaseIssuer =>
            obtain ⟨a, h⟩ := Equip.changeBaseIssuer_writes h
            exact .issuerChanged h
        | _ => exact absurd rfl hc

/-! ## Numbers not given yet -/

/-- **A base not created yet** is not there, nor is any part of it. -/
structure Numbered (s : State W) : Prop where
  bases : ∀ b, s.nextBaseId ≤ b → s.bases b = none
  parts : ∀ b i, s.nextBaseId ≤ b → s.parts (b, i) = none

omit [Config W] in
theorem Numbered.congr (hs : Numbered s) (h : Same State.catalog s s') : Numbered s' := by
  simp only [Same, State.catalog, Prod.mk.injEq] at h
  obtain ⟨hbases, hparts, hnext⟩ := h
  exact ⟨fun b hb => hbases ▸ hs.bases b (hnext ▸ hb), fun b i hb =>
    hparts ▸ hs.parts b i (hnext ▸ hb)⟩

theorem Numbered.step (hs : Numbered s) (hstep : Step s act s') : Numbered s' := by
  cases hstep.catalogued with
  | same _ h => exact hs.congr h
  | @created o bt sy ps h =>
      obtain ⟨base, -, hbases⟩ := h.bases
      have hlt : ∀ b, s'.nextBaseId ≤ b → s.nextBaseId < b := fun b hb =>
        lt_of_succ_le h.room (h.nextBaseId ▸ hb)
      refine ⟨fun b hb => ?_, fun b i hb => ?_⟩
      · rw [hbases, StorageMap.insert_of_ne (UInt32.ne_of_lt (hlt b hb)).symm]
        exact hs.bases b (UInt32.le_of_lt (hlt b hb))
      · rw [h.parts, Equip.putParts_of_ne (UInt32.ne_of_lt (hlt b hb)).symm]
        exact hs.parts b i (UInt32.le_of_lt (hlt b hb))
  | @equippable o b sl l q hbase hpart h =>
      subst h
      refine ⟨hs.bases, fun b' i hb => ?_⟩
      have hne : (b', i) ≠ (b, sl) := fun heq => by
        rw [← heq, hs.parts b' i hb] at hpart
        cases hpart
      exact (StorageMap.insert_of_ne hne).trans (hs.parts b' i hb)
  | issuerChanged h =>
      subst h
      exact ⟨fun b hb => StorageMap.mutate_eq_none_iff.2 (hs.bases b hb), hs.parts⟩

/-- **The bases of every reachable state are numbered.** -/
theorem Reachable.basesNumbered (h : Reachable s) : Numbered s := by
  refine h.invariant (fun s h0 => ?_) fun _ _ _ _ hs hstep => hs.step hstep
  obtain ⟨w, -, -, rfl⟩ := h0
  exact ⟨fun _ _ => rfl, fun _ _ _ => rfl⟩

end Rmrk
