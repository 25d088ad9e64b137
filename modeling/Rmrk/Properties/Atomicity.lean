import Rmrk.Common.Atomic
import Rmrk.Helpers.Lookup
import Rmrk.Mock.Replay
/-!
# Extrinsics are all or nothing

The dispatchables of `rmrk-core` and `rmrk-market` are transactional, and
those of `rmrk-equip` are not. These make all their checks before their
first write, `create_base` after none but its counter's, and no write of
theirs can fail.
-/

namespace Rmrk

open Effect

variable {W : Type} {s s' : State W} {o : AccountId} {x : NftKey}

/-- The walk to the root writes nothing, and so leaves nothing behind where it
gives up. -/
theorem reads_lookupRootOwner [Config W] :
    Reads (lookupRootOwner x : M W (AccountId × NftKey)) where
  ok _ _ _ h := (lookupRootOwner_ok.1 h).2.symm
  atomic := by
    refine Reads.get.bind fun s => ?_
    cases Walk.run (lookupStep s) keyCount x with
    | none => exact Reads.throw.atomic
    | some r =>
        cases r with
        | error e => exact Reads.throw.atomic
        | ok r => exact Completes.pure.atomic

namespace Equip

variable {item equipper : NftKey} {r : ResourceId} {b : BaseId} {sl : SlotId} {e : Bool}

/-! ## `equip` -/

/-- The write that marks an item cannot fail. -/
theorem completes_setEquipped : Completes (setEquipped item e : M W Unit) :=
  .update

/-- Nor can the two that empty a slot. -/
theorem completes_unequip : Completes (unequip item equipper b sl : M W Bool) :=
  .bind .update fun _ => .bind completes_setEquipped fun _ => .pure

/-- Nine checks, and then the two writes. -/
theorem atomic_fillSlot {a a' : AccountId} :
    Atomic (fillSlot o item equipper r b sl a a' : M W Bool) := by
  refine Reads.get.bind fun s => Reads.ensure.bind fun _ => Reads.okOr.bind fun nft => ?_
  refine Reads.ensure.bind fun _ => Reads.ensure.bind fun _ => Reads.ensure.bind fun _ => ?_
  refine Reads.ensure.bind fun _ => Reads.ensure.bind fun _ => Reads.ensure.bind fun _ => ?_
  refine Reads.okOr.bind fun part => ?_
  cases part with
  | fixedPart p => exact Reads.throw.atomic
  | slotPart p =>
      refine Reads.ensure.bind fun _ => Completes.atomic ?_
      exact .bind .update fun _ => .bind completes_setEquipped fun _ => .pure

variable [Config W]

/-- **Of the ways through `do_equip`** one aborts in a lookup, and none
after a write. -/
theorem atomic_doEquip : Atomic (doEquip o item equipper r b sl : M W Bool) := by
  refine Reads.get.bind fun s => Reads.ensure.bind fun _ => Reads.ensure.bind fun _ => ?_
  refine Atomic.ite completes_unequip.atomic ?_
  refine reads_lookupRootOwner.bind fun ⟨a, _⟩ => reads_lookupRootOwner.bind fun ⟨a', _⟩ => ?_
  exact Atomic.ite completes_unequip.atomic atomic_fillSlot

/-! ## Bases and themes -/

omit [Config W] in
/-- The number is the first and the only thing to run out. -/
theorem atomic_createBase {bt sy : BoundedString} {ps : List PartType} :
    Atomic (createBase o bt sy ps : M W Unit) := by
  have hcounter : Atomic (getNextBaseId : M W BaseId) := by
    refine Reads.get.bind fun s => Reads.okOr.bind fun id => Completes.atomic ?_
    exact .bind .update fun _ => .pure
  refine Atomic.bind (hcounter.bind fun id => ?_) fun _ => .pure
  exact .bind (.each fun _ => .update) fun _ => .bind .update fun _ => .pure

omit [Config W] in
/-- The list is written last. -/
theorem atomic_doEquippable {l : EquippableList} :
    Atomic (doEquippable o b sl l : M W Unit) := by
  refine Reads.get.bind fun s => Reads.okOr.bind fun base => Reads.ensure.bind fun _ => ?_
  refine Reads.okOr.bind fun part => ?_
  cases part with
  | fixedPart p => exact Reads.throw.atomic
  | slotPart p => exact Completes.update.atomic

/-- So is the new issuer, once its address has been looked up. -/
theorem atomic_changeBaseIssuer {source : Config.Source W} :
    Atomic (changeBaseIssuer o b source : M W Unit) := by
  refine Reads.get.bind fun s => Reads.okOr.bind fun base => Reads.ensure.bind fun _ => ?_
  refine Reads.ofResult.bind fun newOwner => Reads.ensure.bind fun _ => ?_
  refine Atomic.bind ?_ fun _ => .pure
  refine Reads.get.bind fun s => Reads.ensure.bind fun _ => Completes.atomic ?_
  exact .bind .update fun _ => .pure

/-- The checks come before the loop, and the passes of the loop only write. -/
theorem atomic_themeAdd {theme : Theme} : Atomic (themeAdd o b theme : M W Unit) := by
  refine Reads.ensure.bind fun _ => Reads.get.bind fun s => Reads.okOr.bind fun base => ?_
  refine Reads.ensure.bind fun _ => Reads.ensure.bind fun _ => Completes.atomic ?_
  exact .each fun _ => .update

end Equip

variable [Config W] {call : Call W} {e : Abort}

/-- **Every extrinsic is all or nothing**: where it returns an error it has
written nothing. -/
theorem dispatch_atomic (h : dispatch o call s = .error e s') : s' = s := by
  have hcall : Atomic (dispatch o call) := by
    cases call with
    | changeBaseIssuer => exact Equip.atomic_changeBaseIssuer
    | equip => exact Equip.atomic_doEquip.bind fun _ => .pure
    | equippable => exact Equip.atomic_doEquippable
    | themeAdd => exact Equip.atomic_themeAdd
    | createBase => exact Equip.atomic_createBase
    | _ => exact Atomic.transactional
  exact hcall s e s' h

namespace Mock

/-- The last number of a base has been given. -/
def numbersGone : State Storage := { genesis endowed with nextBaseId := 4294967295 }

/-- Alice gets no base, and the counter stays. -/
theorem createBase_refused : ∃ e s',
    dispatch alice (.createBase [] [] []) numbersGone = .error e s' ∧ s' = numbersGone := by
  have h : dispatch alice (.createBase [] [] []) numbersGone =
    .error Equip.Error.noAvailableBaseId numbersGone := rfl
  exact ⟨_, _, h, dispatch_atomic h⟩

end Mock

end Rmrk
