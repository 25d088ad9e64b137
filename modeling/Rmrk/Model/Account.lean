import Rmrk.Model.Types
/-!
# Virtual accounts

An NFT is given an account of its own, so that `pallet_uniques`, which
knows accounts only, can record it as the owner of another NFT. The
account carries a salt, the NFT's two identifiers and zeros.
-/

namespace Rmrk

/-- `SALT_RMRK_NFT`, the bytes of `RmrkNft/`. -/
def saltRmrkNft : List UInt8 := [82, 109, 114, 107, 78, 102, 116, 47]

/-- SCALE: a `u32` is its 4 bytes, the lowest first. -/
def encodeU32 (x : UInt32) : List UInt8 :=
  [UInt8.ofNat x.toNat, UInt8.ofNat (x.toNat >>> 8), UInt8.ofNat (x.toNat >>> 16),
    UInt8.ofNat (x.toNat >>> 24)]

/-- SCALE: read a `u32`, and what is left of the input. -/
def decodeU32 : List UInt8 → Option (UInt32 × List UInt8)
  | b₀ :: b₁ :: b₂ :: b₃ :: rest =>
      some (UInt32.ofNat
        (b₀.toNat + b₁.toNat <<< 8 + b₂.toNat <<< 16 + b₃.toNat <<< 24), rest)
  | _ => none

/-- SCALE: read an array of `n` bytes, and what is left of the input. -/
def decodeBytes (n : ℕ) (b : List UInt8) : Option (List UInt8 × List UInt8) :=
  if n ≤ b.length then some (b.take n, b.drop n) else none

/-- `TrailingZeroInput`: read `n` bytes, zeros once the input has run
out. -/
def trailingZeroInput (n : ℕ) (b : List UInt8) : List UInt8 :=
  (b ++ List.replicate n 0).take n

/-- `nft_to_account_id`. -/
def nftToAccountId (nft : NftKey) : AccountId where
  bytes := trailingZeroInput 32 (saltRmrkNft ++ encodeU32 nft.1 ++ encodeU32 nft.2)
  length_eq := by
    simp only [trailingZeroInput, List.length_take, List.length_append, List.length_replicate]
    omega

/-- `decode_nft_account_id`: the NFT whose account this is, if it is one.
The suffix is checked as well as the salt, so that no other account
decodes. -/
def decodeNftAccountId (accountId : AccountId) : Option NftKey := do
  let (salt, b) ← decodeBytes 8 accountId.bytes
  let (collectionId, b) ← decodeU32 b
  let (nftId, suffix) ← decodeU32 b
  if salt = saltRmrkNft ∧ suffix.all (· = 0) then some (collectionId, nftId) else none

end Rmrk
