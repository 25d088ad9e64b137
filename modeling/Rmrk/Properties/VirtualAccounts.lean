import Mathlib.Data.Set.Function
import Rmrk.Helpers.Codec
/-!
# Every NFT has an account of its own

Who owns an NFT that is nested in another is read off an account: the code
that makes it and the one that reads it back are written apart, the first
leaving the zeros to the reader of its bytes, the second testing a prefix
and what is left of the bytes. Between the NFTs and the accounts that read
back as one, they are inverse to each other.
-/

namespace Rmrk

variable {x : NftKey} {a : AccountId}

/-- **The bytes that stand for an NFT**: the salt, the two numbers, the
lowest byte first, and zeros up to the end. -/
def Carries (a : AccountId) (x : NftKey) : Prop :=
  a.bytes = saltRmrkNft ++ encodeU32 x.1 ++ encodeU32 x.2 ++ List.replicate 16 0

example : encodeU32 258 = [2, 1, 0, 0] := by decide

/-- An account is its bytes. -/
theorem carries_iff : Carries a x ↔ a = nftToAccountId x := by
  have hbytes : (nftToAccountId x).bytes =
      saltRmrkNft ++ encodeU32 x.1 ++ encodeU32 x.2 ++ List.replicate 16 0 := by
    rw [bytes_nftToAccountId]
    simp only [List.append_assoc]
  rw [Carries, ← hbytes]
  constructor
  · intro h
    cases a
    simpa [nftToAccountId] using h
  · rintro rfl
    rfl

/-- What reads back as no NFT carries none. -/
theorem decodeNftAccountId_eq_none_iff :
    decodeNftAccountId a = none ↔ ∀ x, ¬ Carries a x := by
  rw [Option.eq_none_iff_forall_ne_some]
  exact forall_congr' fun x => not_congr (decodeNftAccountId_eq_some_iff.trans carries_iff.symm)

/-- **The virtual accounts.** What is made of an NFT reads back as it, and
what reads back as an NFT was made of it: so the accounts that read back
are one to one with the NFTs, and any that does not carry exactly those
bytes reads back as none. -/
theorem virtualAccounts_bijective :
    (∀ x, decodeNftAccountId (nftToAccountId x) = some x) ∧
      (∀ a x, decodeNftAccountId a = some x → a = nftToAccountId x) ∧
      Set.BijOn nftToAccountId Set.univ {a | (decodeNftAccountId a).isSome = true} ∧
      ∀ a, decodeNftAccountId a = none ↔ ∀ x, ¬ Carries a x := by
  refine ⟨fun _ => decodeNftAccountId_nftToAccountId, fun _ _ => eq_nftToAccountId_of_decode,
    ⟨fun x _ => by simp, nftToAccountId_injective.injOn, fun a ha => ?_⟩,
    fun _ => decodeNftAccountId_eq_none_iff⟩
  obtain ⟨x, hx⟩ := Option.isSome_iff_exists.1 ha
  exact ⟨x, trivial, (eq_nftToAccountId_of_decode hx).symm⟩

end Rmrk
