import Rmrk.Mock.Runtime
/-!
# Runs of the mock runtime

A list of signed extrinsics, the latest first as in a run, is replayed
from genesis; where all of them return `Ok` it is a run. The accounts are
those of the pallets' mocks.
-/

namespace Rmrk

namespace Mock

abbrev Extrinsic := AccountId × Call Storage

/-- The account whose bytes are all `b`. -/
def account (b : UInt8) : AccountId := ⟨List.replicate 32 b, List.length_replicate⟩

def alice : AccountId := account 1
def bob : AccountId := account 2
def charlie : AccountId := account 3

/-- Everyone is endowed, and `pallet_uniques` is empty. -/
def endowed : Storage where
  items := []
  collectionOwner _ := none
  acceptances _ := none
  free _ := 1000
  reserved _ := 0

/-- The state an extrinsic leaves. -/
def apply (e : Extrinsic) (s : State Storage) : State Storage :=
  match dispatch e.1 e.2 s with
  | .ok _ s' => s'
  | .error _ s' => s'

/-- An extrinsic returns `Ok`. -/
def returns (e : Extrinsic) (s : State Storage) : Bool :=
  match dispatch e.1 e.2 s with
  | .ok _ _ => true
  | .error _ _ => false

/-- The state after a list of extrinsics. -/
def replay : List Extrinsic → State Storage
  | [] => genesis endowed
  | e :: es => apply e (replay es)

/-- The run of a list of extrinsics. -/
def history : List Extrinsic → List (State Storage × Act Storage)
  | [] => []
  | e :: es => (replay es, .signed e.1 e.2) :: history es

/-- All of them return `Ok`. -/
def allReturn : List Extrinsic → Bool
  | [] => true
  | e :: es => returns e (replay es) && allReturn es

theorem step_apply {e : Extrinsic} {s : State Storage} (h : returns e s = true) :
    Step s (.signed e.1 e.2) (apply e s) := by
  unfold returns at h
  unfold apply
  change dispatch e.1 e.2 s = _
  cases hd : dispatch e.1 e.2 s with
  | ok u s' => rfl
  | error e s' => simp [hd] at h

/-- **Extrinsics that all return `Ok` make up a run.** -/
theorem isRun_replay {es : List Extrinsic} (h : allReturn es = true) :
    IsRun (history es) (replay es) := by
  induction es with
  | nil => exact .start ⟨endowed, fun _ => rfl, fun _ => rfl, rfl⟩
  | cons e es ih =>
      simp only [allReturn, Bool.and_eq_true] at h
      exact .step (ih h.2) (step_apply h.1)

theorem reachable_replay {es : List Extrinsic} (h : allReturn es = true) :
    Reachable (replay es) :=
  (isRun_replay h).reachable

/-- The storage of `pallet_uniques` once `a` has called
`set_accept_ownership` for the collection `c`. -/
def accepting (a : AccountId) (c : CollectionId) (w : Storage) : Storage :=
  { w with acceptances := Function.update w.acceptances a (some c) }

/-- The filter leaves `set_accept_ownership` open: it is a step of the rest
of the runtime. -/
theorem step_accepting (a : AccountId) (c : CollectionId) (s : State Storage) :
    Step s (.between s.blockNumber (accepting a c s.ext)) { s with ext := accepting a c s.ext } :=
  ⟨le_rfl, ⟨rfl, rfl, rfl⟩, rfl⟩

/-- Where no NFT is owned by an NFT as new as itself, none is above
itself. -/
theorem acyclic_of_older {s : State Storage} (h : (s.ext.items.all fun e =>
    (decodeNftAccountId e.2).all fun p => p.2 < e.1.2) = true) : Pointer.Acyclic s.parent := by
  refine .of_rank (fun x => x.2.toNat) fun x p hxp => ?_
  obtain ⟨a, ha, hp⟩ := Option.bind_eq_some_iff.1 hxp
  obtain ⟨l, l', hl, -⟩ := List.lookup_eq_some_iff.1 (show s.ext.items.lookup x = some a from ha)
  have hmem : (x, a) ∈ s.ext.items := by simp [hl]
  have hlt := List.all_eq_true.1 h _ hmem
  rw [hp] at hlt
  exact UInt32.lt_iff_toNat_lt.1 (by simpa using hlt)

/-! ## Extrinsics the runs below are made of -/

/-- A collection without a maximum. -/
def newCollection : Call Storage := .createCollection [] none []

/-- A transferable NFT for `owner`. -/
def mintTo (owner : AccountId) : Call Storage := .mintNft (some owner) 0 none none [] true none

/-- A transferable NFT for the NFT `p`. -/
def mintInto (p : NftKey) : Call Storage := .mintNftDirectlyToNft p 0 none none [] true none

end Mock

end Rmrk
