import Rmrk.Common.Run
import Rmrk.Model.Market
/-!
# The runtime as a transition system

The extrinsics of the three pallets, what happens between two of them,
and the runs they make up from genesis.
-/

namespace Rmrk

/-- The extrinsics of `rmrk-core`, `rmrk-equip` and `rmrk-market`. -/
inductive Call (W : Type) [Config W] where
  | mintNft (owner : Option AccountId) (collectionId : CollectionId)
      (royaltyRecipient : Option AccountId) (royalty : Option Permill)
      (metadata : BoundedString) (transferable : Bool) (resources : Option (List ResourceTypes))
  | mintNftDirectlyToNft (owner : NftKey) (collectionId : CollectionId)
      (royaltyRecipient : Option AccountId) (royalty : Option Permill)
      (metadata : BoundedString) (transferable : Bool) (resources : Option (List ResourceTypes))
  | createCollection (metadata : BoundedString) (max : Option UInt32) (symbol : BoundedString)
  | burnNft (nft : NftKey) (maxBurns : UInt32)
  | destroyCollection (collectionId : CollectionId)
  | send (nft : NftKey) (newOwner : AccountIdOrCollectionNftTuple)
  | acceptNft (nft : NftKey) (newOwner : AccountIdOrCollectionNftTuple)
  | rejectNft (nft : NftKey)
  | changeCollectionIssuer (collectionId : CollectionId) (newIssuer : Config.Source W)
  | setProperty (collectionId : CollectionId) (maybeNftId : Option NftId)
      (key value : BoundedString)
  | lockCollection (collectionId : CollectionId)
  | addBasicResource (nft : NftKey) (resource : BasicResource)
  | addComposableResource (nft : NftKey) (resource : ComposableResource)
  | addSlotResource (nft : NftKey) (resource : SlotResource)
  | acceptResource (nft : NftKey) (resourceId : ResourceId)
  | removeResource (nft : NftKey) (resourceId : ResourceId)
  | acceptResourceRemoval (nft : NftKey) (resourceId : ResourceId)
  | setPriority (nft : NftKey) (priorities : List ResourceId)
  | changeBaseIssuer (baseId : BaseId) (newIssuer : Config.Source W)
  | equip (item equipper : NftKey) (resourceId : ResourceId) (base : BaseId) (slot : SlotId)
  | equippable (baseId : BaseId) (slotId : SlotId) (equippables : EquippableList)
  | themeAdd (baseId : BaseId) (theme : Theme)
  | createBase (baseType symbol : BoundedString) (parts : List PartType)
  | buy (nft : NftKey) (amount : Option Balance)
  | list (nft : NftKey) (amount : Balance) (expires : Option BlockNumber)
  | unlist (nft : NftKey)
  | makeOffer (nft : NftKey) (amount : Balance) (expires : Option BlockNumber)
  | withdrawOffer (nft : NftKey)
  | acceptOffer (nft : NftKey) (offerer : AccountId)

variable {W : Type} [Config W]

/-- An extrinsic, signed. -/
def dispatch (o : AccountId) : Call W → M W Unit
  | .mintNft owner c rr r md t res => Core.mintNft o owner c rr r md t res
  | .mintNftDirectlyToNft owner c rr r md t res => Core.mintNftDirectlyToNft o owner c rr r md t res
  | .createCollection md max symbol => Core.createCollection o md max symbol
  | .burnNft x k => Core.burnNft o x k
  | .destroyCollection c => Core.destroyCollection o c
  | .send x t => Core.send o x t
  | .acceptNft x t => Core.acceptNft o x t
  | .rejectNft x => Core.rejectNft o x
  | .changeCollectionIssuer c a => Core.changeCollectionIssuer o c a
  | .setProperty c n k v => Core.setProperty o c n k v
  | .lockCollection c => Core.lockCollection o c
  | .addBasicResource x r => Core.addBasicResource o x r
  | .addComposableResource x r => Core.addComposableResource o x r
  | .addSlotResource x r => Core.addSlotResource o x r
  | .acceptResource x r => Core.acceptResource o x r
  | .removeResource x r => Core.removeResource o x r
  | .acceptResourceRemoval x r => Core.acceptResourceRemoval o x r
  | .setPriority x l => Core.setPriority o x l
  | .changeBaseIssuer b a => Equip.changeBaseIssuer o b a
  | .equip item equipper r b sl => Equip.equip o item equipper r b sl
  | .equippable b sl l => Equip.equippable o b sl l
  | .themeAdd b t => Equip.themeAdd o b t
  | .createBase t sy ps => Equip.createBase o t sy ps
  | .buy x v => Market.buy o x v
  | .list x v e => Market.list o x v e
  | .unlist x => Market.unlist o x
  | .makeOffer x v e => Market.makeOffer o x v e
  | .withdrawOffer x => Market.withdrawOffer o x
  | .acceptOffer x a => Market.acceptOffer o x a

/-- The pallet a call belongs to. -/
inductive Pallet where
  | core | equip | market
  deriving DecidableEq

def Call.pallet : Call W → Pallet
  | .buy .. | .list .. | .unlist .. | .makeOffer .. | .withdrawOffer .. | .acceptOffer .. => .market
  | .changeBaseIssuer .. | .equip .. | .equippable .. | .themeAdd .. | .createBase .. => .equip
  | _ => .core

/-- One step of the runtime: an extrinsic, or what goes on between two
extrinsics, in which blocks may begin. -/
inductive Act (W : Type) [Config W] where
  | signed (signer : AccountId) (call : Call W)
  | between (blockNumber : BlockNumber) (ext : W)

/-- **A step.** An extrinsic is a step where it returns `Ok`; one that
does not leaves nothing behind that is a step of its own. -/
def Step (s : State W) : Act W → State W → Prop
  | .signed o call, s' => dispatch o call s = .ok () s'
  | .between n w, s' =>
      s.blockNumber ≤ n ∧ Config.Elsewhere s.ext w ∧ s' = { s with ext := w, blockNumber := n }

/-- Genesis: no storage of ours, and no items in `pallet_uniques`. -/
def Genesis (s : State W) : Prop :=
  ∃ w, (∀ x, Uniques.owner w x = none) ∧ (∀ c, Uniques.collectionOwner w c = none) ∧
    s = genesis w

/-- The runs of the runtime. -/
abbrev IsRun : List (State W × Act W) → State W → Prop := Run Genesis Step

/-- **A reachable state.** -/
abbrev Reachable (s : State W) : Prop := Run.Reachable Genesis Step s

end Rmrk
