import Rmrk.Properties.Consent
import Rmrk.Properties.Protocol
/-!
# Consent at the root

What owns an NFT at the root is not what owns it directly: an account can
lose an NFT by what becomes of any NFT above it. Whatever becomes of them,
it does not lose it but by a call of its own or by a sale it has asked
for. This holds of every step, whatever the run before it did to the
forest or to the index.
-/

namespace Rmrk

open Relation Pointer Effect

variable {W : Type} [Config W] {s s' : State W} {act : Act W} {h : List (State W × Act W)}
variable {x y : NftKey} {a o : AccountId}

/-- The calls by which a root owner parts with an NFT. -/
def Call.partsWith (x : NftKey) : Call W → Prop
  | .send y _ | .acceptNft y _ | .burnNft y _ | .acceptOffer y _ => y = x
  | _ => False

/-- **The account parts with an NFT `y` is in**, or `y` itself. -/
def PartsWith (s : State W) (y : NftKey) (a : AccountId) (act : Act W) : Prop :=
  ∃ x call, act = .signed a call ∧ call.partsWith x ∧ Reaches s.parent y x

/-- **An NFT `y` is in is sold**, or `y` itself: the account has listed it,
and is paid. -/
def SoldFrom (h : List (State W × Act W)) (s s' : State W) (y : NftKey) (a : AccountId)
    (act : Act W) : Prop :=
  ∃ x buyer amount info s₁, act = .signed buyer (.buy x amount) ∧ Reaches s.parent y x ∧
    Paid x a buyer info s s' ∧
    LastTouch h (.listing x) s₁ (.signed a (.list x info.amount info.expires))

theorem PartsWith.of_root {call : Call W} (hroot : RootOwner s x o) (hxa : RootOwner s x a)
    (hyx : Reaches s.parent y x) (hcall : call.partsWith x) :
    PartsWith s y a (.signed o call) :=
  ⟨x, call, by rw [hroot.unique hxa], hcall, hyx⟩

/-- A write of one owner is felt below it only, and there by who has it at
the root. -/
theorem reaches_of_lost {c : Option AccountId} (howner : s'.owner = Function.update s.owner x c)
    (hroot : RootOwner s y a) (hlost : ¬ RootOwner s' y a) :
    Reaches s.parent y x ∧ RootOwner s x a := by
  have hyx : Reaches s.parent y x := by
    by_contra hyx
    exact hlost ((rootOwner_update howner hyx).2 hroot)
  exact ⟨hyx, (rootOwner_of_reaches hyx).1 hroot⟩

/-- **Nobody loses an NFT at the root** but by a call of his own, or by a
sale he has asked for. -/
theorem root_consent (hr : IsRun h s) (hstep : Step s act s') (hroot : RootOwner s y a)
    (hlost : ¬ RootOwner s' y a) : PartsWith s y a act ∨ SoldFrom h s s' y a act := by
  have hkept : s'.owner = s.owner → False := fun ho => hlost ((rootOwner_congr ho).2 hroot)
  have hnew : ∀ {z : NftKey} {c : Option AccountId}, s.owner z = none →
      s'.owner = Function.update s.owner z c → False := by
    intro z c hz ho
    have hsome := (reaches_of_lost ho hroot hlost).2.owner_isSome
    simp [hz] at hsome
  have hsound := Reachable.sound hr.reachable
  cases hstep.outcome with
  | silent _ h => exact (hkept h.owner).elim
  | noted _ h => exact (hkept h.owner).elim
  | mintNft _ _ h => exact (hnew (h.absent hsound).owner h.owner).elim
  | mintNftDirectlyToNft _ _ _ h => exact (hnew (h.absent hsound).owner h.owner).elim
  | send h =>
      obtain ⟨hyx, hxa⟩ := reaches_of_lost h.owner hroot hlost
      exact .inl (.of_root h.root hxa hyx rfl)
  | acceptNft h =>
      obtain ⟨hyx, hxa⟩ := reaches_of_lost h.owner hroot hlost
      exact .inl (.of_root h.root hxa hyx rfl)
  | burnNft hx _ howner =>
      obtain ⟨hyx, hxa⟩ := reaches_of_lost howner hroot hlost
      exact .inl (.of_root hx hxa hyx rfl)
  | rejectNft _ _ _ howner => exact (hkept howner).elim
  | unequip h => exact (hkept h.owner).elim
  | equip h => exact (hkept h.owner).elim
  | list _ _ _ h => exact (hkept h.owner).elim
  | unlist _ h => exact (hkept h.owner).elim
  | buy hinfo hby hexp h _ _ hold hnew =>
      obtain ⟨hyx, hxa⟩ := reaches_of_lost h.owner hroot hlost
      -- what is sold is sold by its root owner, who has listed it
      obtain rfl := h.root.unique hxa
      obtain ⟨s₁, hlast, -⟩ := listed_by hr hinfo
      exact .inr ⟨_, _, _, _, s₁, rfl, hyx, ⟨hinfo, hby, hexp, hold, hnew⟩, hby ▸ hlast⟩
  | acceptOffer _ h =>
      obtain ⟨hyx, hxa⟩ := reaches_of_lost h.owner hroot hlost
      exact .inl (.of_root h.root hxa hyx rfl)

namespace Mock

/-- Alice lists an NFT with a child. -/
def listedWithChild : List Extrinsic :=
  [(alice, .list (0, 0) 100 none), (alice, mintInto (0, 0)), (alice, mintTo alice),
    (alice, newCollection)]

/-- **The child goes with what it is in**, to who buys that. -/
theorem sold_child : SoldFrom (history listedWithChild) (replay listedWithChild)
    (apply (bob, .buy (0, 0) none) (replay listedWithChild)) (0, 1) alice
    (.signed bob (.buy (0, 0) none)) := by
  have hstep : Step (replay listedWithChild) (.signed bob (.buy (0, 0) none))
      (apply (bob, .buy (0, 0) none) (replay listedWithChild)) :=
    step_apply (e := (bob, .buy (0, 0) none)) (by decide +kernel)
  have hparent : (replay listedWithChild).parent (0, 1) = some (0, 0) := by decide +kernel
  have howner : (replay listedWithChild).owner (0, 0) = some alice := by decide +kernel
  have hbefore : RootOwner (replay listedWithChild) (0, 1) alice :=
    (rootOwner_of_parent hparent).2 ((rootOwner_of_owner howner (by decide +kernel)).2 rfl)
  have hafter :
      ¬ RootOwner (apply (bob, .buy (0, 0) none) (replay listedWithChild)) (0, 1) alice := by
    have hparent' : (apply (bob, .buy (0, 0) none) (replay listedWithChild)).parent (0, 1) =
        some (0, 0) := by decide +kernel
    have howner' : (apply (bob, .buy (0, 0) none) (replay listedWithChild)).owner (0, 0) =
        some bob := by decide +kernel
    rw [rootOwner_of_parent hparent', rootOwner_of_owner howner' (by decide +kernel)]
    decide +kernel
  refine (root_consent (isRun_replay (by decide +kernel)) hstep hbefore hafter).resolve_left ?_
  rintro ⟨x, call, hact, -⟩
  have hne : bob ≠ alice := by decide +kernel
  exact hne (Act.signed.inj hact).1

end Mock

end Rmrk
