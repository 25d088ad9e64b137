import Rmrk.Model.Account
/-!
# Virtual accounts decode to their NFT

`nft_to_account_id` and `decode_nft_account_id` are inverse to each other:
each NFT has an account of its own, and an account that is no NFT's
decodes to nothing.
-/

namespace Rmrk

variable {x y : NftKey} {a : AccountId}

/-- A number is read back from its four bytes, whatever comes after them. -/
theorem decodeU32_encodeU32 {n : UInt32} {rest : List UInt8} :
    decodeU32 (encodeU32 n ++ rest) = some (n, rest) := by
  have hn := n.toNat_lt
  simp only [encodeU32, decodeU32, List.cons_append, List.nil_append, Option.some.injEq,
    Prod.mk.injEq, and_true, ← UInt32.toNat_inj, UInt32.toNat_ofNat', UInt8.toNat_ofNat']
  omega

/-- And only from them. -/
theorem eq_encodeU32_of_decodeU32 {n : UInt32} {b rest : List UInt8}
    (h : decodeU32 b = some (n, rest)) : b = encodeU32 n ++ rest := by
  match b, h with
  | b₀ :: b₁ :: b₂ :: b₃ :: rest', h =>
      simp only [decodeU32, Option.some.injEq, Prod.mk.injEq] at h
      obtain ⟨rfl, rfl⟩ := h
      have h₀ := b₀.toNat_lt
      have h₁ := b₁.toNat_lt
      have h₂ := b₂.toNat_lt
      have h₃ := b₃.toNat_lt
      simp only [encodeU32, List.cons_append, List.nil_append, List.cons.injEq, and_true,
        ← UInt8.toNat_inj, UInt8.toNat_ofNat', UInt32.toNat_ofNat']
      omega

/-- Salt, collection, NFT, and zeros up to the 32 bytes of an account. -/
theorem bytes_nftToAccountId : (nftToAccountId x).bytes =
    saltRmrkNft ++ (encodeU32 x.1 ++ (encodeU32 x.2 ++ List.replicate 16 0)) := rfl

/-- **The account of an NFT decodes to it.** -/
theorem decodeNftAccountId_nftToAccountId : decodeNftAccountId (nftToAccountId x) = some x := by
  have hsalt : decodeBytes 8 (nftToAccountId x).bytes = some (saltRmrkNft,
      encodeU32 x.1 ++ (encodeU32 x.2 ++ List.replicate 16 0)) := rfl
  simp [decodeNftAccountId, hsalt, decodeU32_encodeU32]

/-- What is taken off the front and what is left make up the input. -/
theorem eq_of_decodeBytes {n : ℕ} {b l r : List UInt8} (h : decodeBytes n b = some (l, r)) :
    b = l ++ r := by
  simp only [decodeBytes, Option.ite_none_right_eq_some, Option.some.injEq, Prod.mk.injEq] at h
  obtain ⟨-, rfl, rfl⟩ := h
  exact (List.take_append_drop n b).symm

/-- **No account but its own decodes to an NFT.** -/
theorem eq_nftToAccountId_of_decode (h : decodeNftAccountId a = some x) :
    a = nftToAccountId x := by
  simp only [decodeNftAccountId, Option.bind_eq_bind, Option.bind_eq_some_iff, Prod.exists,
    Option.ite_none_right_eq_some, Option.some.injEq] at h
  obtain ⟨salt, b, hsalt, c, b', hc, n, suffix, hn, ⟨rfl, hz⟩, rfl⟩ := h
  have hbytes : a.bytes = saltRmrkNft ++ (encodeU32 c ++ (encodeU32 n ++ suffix)) := by
    rw [eq_of_decodeBytes hsalt, eq_encodeU32_of_decodeU32 hc, eq_encodeU32_of_decodeU32 hn]
  have hlen : suffix.length = 16 := by
    have := a.length_eq
    rw [hbytes] at this
    simp [saltRmrkNft, encodeU32] at this
    omega
  have hsuffix : suffix = List.replicate 16 0 := by
    refine List.eq_replicate_iff.2 ⟨hlen, fun b hb => ?_⟩
    simpa using List.all_eq_true.1 hz b hb
  have : a.bytes = (nftToAccountId (c, n)).bytes := by rw [hbytes, hsuffix, bytes_nftToAccountId]
  cases a
  simpa [nftToAccountId] using this

/-- The two together: decoding is the partial inverse. -/
theorem decodeNftAccountId_eq_some_iff :
    decodeNftAccountId a = some x ↔ a = nftToAccountId x :=
  ⟨eq_nftToAccountId_of_decode, fun h => h ▸ decodeNftAccountId_nftToAccountId⟩

attribute [simp] decodeNftAccountId_nftToAccountId

/-- No two NFTs share an account. -/
theorem nftToAccountId_injective : Function.Injective nftToAccountId := by
  intro x y h
  have := congrArg decodeNftAccountId h
  simpa using this

end Rmrk
