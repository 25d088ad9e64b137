import Rmrk.Helpers.Frames
/-!
# The calls that keep the books

The books are the collections, the offers and the storage of the other
pallets. Most functions write none of them, which is read off their
bodies operation by operation.
-/

namespace Rmrk

open Effect

variable {W : Type} {s s' : State W} {x y p : NftKey} {o a : AccountId}

/-- **The books are as they were.** -/
structure SameBooks (s s' : State W) : Prop where
  collections : s'.collections = s.collections
  collectionIndex : s'.collectionIndex = s.collectionIndex
  offers : s'.offers = s.offers
  ext : s'.ext = s.ext

instance sameBooksRefl : Std.Refl (SameBooks (W := W)) := ⟨fun _ => ⟨rfl, rfl, rfl, rfl⟩⟩

instance sameBooksTrans : IsTrans (State W) SameBooks where
  trans _ _ _ h h' := {
    collections := h'.collections.trans h.collections
    collectionIndex := h'.collectionIndex.trans h.collectionIndex
    offers := h'.offers.trans h.offers
    ext := h'.ext.trans h.ext }

/-- They are all that counts. -/
theorem SameBooks.of_eq (h : (s'.collections, s'.collectionIndex, s'.offers, s'.ext) =
    (s.collections, s.collectionIndex, s.offers, s.ext)) : SameBooks s s' := by
  simp only [Prod.mk.injEq] at h
  exact ⟨h.1, h.2.1, h.2.2.1, h.2.2.2⟩

variable [Config W]

namespace Core

theorem addResources_books {l : Option (List ResourceTypes)} :
    Within SameBooks (addResources o x l : M W Unit) :=
  within_addResources (fun _ _ => .of_eq rfl) (fun _ _ => .of_eq rfl)
    (fun _ _ => .of_eq rfl) fun _ _ => .of_eq rfl

theorem addResource_books {resource : ResourceTypes} :
    Within SameBooks (addResource o x resource : M W Unit) :=
  within_addResource (fun _ _ => .of_eq rfl) (fun _ _ => .of_eq rfl)
    (fun _ _ => .of_eq rfl) fun _ _ => .of_eq rfl

end Core

/-! ## All of them -/

/-- The extrinsics that write the books. -/
def Call.booked : Call W → Bool
  | .mintNft .. | .mintNftDirectlyToNft .. | .createCollection .. | .burnNft ..
  | .destroyCollection .. | .send .. | .acceptNft .. | .rejectNft .. | .changeCollectionIssuer ..
  | .lockCollection .. | .buy .. | .makeOffer .. | .withdrawOffer .. | .acceptOffer .. => true
  | _ => false

/-- **The other extrinsics keep them.** -/
theorem dispatch_books {c : Call W} (hc : c.booked = false) : Within SameBooks (dispatch o c) := by
  cases c with
  | setProperty => exact Core.within_setProperty fun _ _ => .of_eq rfl
  | addBasicResource => exact Core.addResource_books
  | addComposableResource => exact Core.addResource_books
  | addSlotResource => exact Core.addResource_books
  | acceptResource => exact Core.within_acceptResource fun _ _ => .of_eq rfl
  | removeResource => exact Core.within_removeResource fun _ _ => .of_eq rfl
  | acceptResourceRemoval =>
      exact Core.within_acceptResourceRemoval fun _ _ => .of_eq rfl
  | setPriority => exact Core.within_setPriority fun _ _ => .of_eq rfl
  | changeBaseIssuer => exact Equip.within_changeBaseIssuer fun _ _ => .of_eq rfl
  | equip =>
      exact Equip.within_equip (fun _ _ => .of_eq rfl) fun _ _ => .of_eq rfl
  | equippable => exact Equip.within_equippable fun _ _ => .of_eq rfl
  | themeAdd => exact Equip.within_themeAdd fun _ _ => .of_eq rfl
  | createBase =>
      exact Equip.within_createBase (fun _ _ => .of_eq rfl)
        (fun _ _ => .of_eq rfl) fun _ _ => .of_eq rfl
  | list =>
      exact Market.within_list (fun _ _ => .of_eq rfl) fun _ _ => .of_eq rfl
  | unlist =>
      exact Market.within_unlist (fun _ _ => .of_eq rfl) fun _ _ => .of_eq rfl
  | _ => simp [Call.booked] at hc

end Rmrk
