import Rmrk.Helpers.Orderly
import Rmrk.Mock.Replay
/-!
# Maxima and locks

A mint compares the next identifier with the maximum of the collection,
and a lock writes the count of the collection into that maximum. Burns
take the count down and leave the next identifier, so the count never
passes it: a lock leaves no identifier below the maximum, and a maximum
bounds all the mints there ever are.
-/

namespace Rmrk

open Counter

variable {W : Type} [Config W] {s s' : State W} {act : Act W} {h : List (State W × Act W)}
variable {c : CollectionId} {k : ℕ}

/-! ## The property -/

/-- How many times a run has minted into a collection. -/
def mints (h : List (State W × Act W)) (c : CollectionId) : ℕ :=
  h.countP fun e => decide (e.2.mintsInto = some c)

/-- A run has created the collection `c`, with the maximum `m`. -/
def CreatedWith (h : List (State W × Act W)) (c : CollectionId) (m : UInt32) : Prop :=
  ∃ t o md sy, (t, Act.signed o (.createCollection md (some m) sy)) ∈ h ∧ t.collectionIndex = c

/-- A run has locked the collection `c`. -/
def LockedIn (h : List (State W × Act W)) (c : CollectionId) : Prop :=
  ∃ t o, (t, Act.signed o (.lockCollection c)) ∈ h

/-! ## The mints of a run -/

/-- The next identifier goes up by one a mint. -/
theorem Step.next (hstep : Step s act s') (d : CollectionId) : (s'.nextNftId d).toNat =
    (s.nextNftId d).toNat + if act.mintsInto = some d then 1 else 0 := by
  have hsame : act.mintsInto = none → s'.nextNftId = s.nextNftId → (s'.nextNftId d).toNat =
      (s.nextNftId d).toNat + if act.mintsInto = some d then 1 else 0 := by
    intro hm hn
    rw [hm, hn, if_neg (by simp), Nat.add_zero]
  rcases hstep.registered.split with ⟨c, hact, h⟩ | ⟨hact, h⟩ | ⟨x, hact, h⟩ | ⟨hact, h⟩
  · rw [h.next]
    simp only [hact, Option.some.injEq, eq_comm]
  · exact hsame hact h.presence.nextNftId
  · exact hsame (Act.mintsInto_of_destroys hact) h.nextNftId
  · exact hsame hact h.presence.nextNftId

/-- **A collection has issued as many identifiers as it has had mints.** -/
theorem toNat_nextNftId (hr : IsRun h s) : (s.nextNftId c).toNat = mints h c := by
  induction hr with
  | start h0 =>
      obtain ⟨w, -, -, rfl⟩ := h0
      rfl
  | @step h s s' act _ hstep ih =>
      rw [hstep.next c, ih, mints, mints, List.countP_cons]
      simp

/-! ## What bounds them -/

/-- **`c` has been created, and will not issue more than `k`**: it has not,
and its maximum does not let it. -/
structure Capped (c : CollectionId) (k : ℕ) (s : State W) : Prop where
  numbered : c.toNat < s.collectionIndex.toNat
  next : (s.nextNftId c).toNat ≤ k
  max : ∀ col, s.collections c = some col → ∃ m, col.max = some m ∧ m.toNat ≤ k

omit [Config W] in
/-- Where the next identifier stays and no greater maximum is written. -/
theorem Capped.of_max (hc : Capped c k s)
    (hindex : s.collectionIndex.toNat ≤ s'.collectionIndex.toNat)
    (hnext : s'.nextNftId = s.nextNftId)
    (hmax : ∀ col', s'.collections c = some col' →
      (∃ m, col'.max = some m ∧ m.toNat ≤ k) ∨
        ∃ col, s.collections c = some col ∧ col'.max = col.max) : Capped c k s' where
  numbered := hc.numbered.trans_le hindex
  next := hnext ▸ hc.next
  max col' hcol' := by
    rcases hmax col' hcol' with hm | ⟨col, hcol, heq⟩
    · exact hm
    · exact heq ▸ hc.max col hcol

omit [Config W] in
/-- A capped collection has room for a mint below the cap only. -/
theorem Counting.lt_cap {d : CollectionId} (h : Counting d s s') (hc : Capped d k s) :
    (s.nextNftId d).toNat < k := by
  obtain ⟨col, hcol, hlt, -⟩ := h.collections
  obtain ⟨m, hm, hmk⟩ := hc.max col hcol
  have := UInt32.lt_iff_toNat_lt.1 (hlt m hm)
  omega

/-- **No step lifts a cap.** -/
theorem Capped.step (hs : Orderly s) (hc : Capped c k s) (hstep : Step s act s') :
    Capped c k s' := by
  rcases hstep.registered.split with ⟨d, -, h⟩ | ⟨-, h⟩ | ⟨x, -, h⟩ | ⟨-, h⟩
  · -- a mint
    obtain ⟨col, hcol, -, -, hcols⟩ := h.collections
    refine ⟨by rw [h.collectionIndex]; exact hc.numbered, ?_, fun col' hcol' => ?_⟩
    · rw [h.next]
      by_cases hd : c = d
      · subst hd
        have := h.lt_cap hc
        rw [if_pos rfl]
        omega
      · rw [if_neg hd]
        exact hc.next
    · rw [hcols] at hcol'
      rcases StorageMap.insert_eq_some_iff.1 hcol' with ⟨rfl, rfl⟩ | ⟨-, hcol'⟩
      · exact hc.max col hcol
      · exact hc.max col' hcol'
  · -- a new collection has a number of its own
    obtain ⟨col, -, hcols⟩ := h.collections
    have hsucc : s'.collectionIndex.toNat = s.collectionIndex.toNat + 1 := by
      rw [h.collectionIndex, toNat_succ h.room]
    refine hc.of_max (by omega) h.presence.nextNftId fun col' hcol' => .inr ⟨col', ?_, rfl⟩
    rw [hcols] at hcol'
    rcases StorageMap.insert_eq_some_iff.1 hcol' with ⟨rfl, -⟩ | ⟨-, hcol'⟩
    · exact absurd hc.numbered (lt_irrefl _)
    · exact hcol'
  · -- a burn
    obtain ⟨l, -, hcount, -⟩ := h.tallied
    refine hc.of_max (by rw [h.collectionIndex]) h.nextNftId fun col' hcol' => .inr ?_
    rw [hcount.collections, Option.map_eq_some_iff] at hcol'
    obtain ⟨col, hcol, rfl⟩ := hcol'
    exact ⟨col, hcol, rfl⟩
  · refine hc.of_max (by rw [h.collectionIndex]) h.presence.nextNftId fun col' hcol' => ?_
    obtain ⟨col, hcol, -, hmax | hmax⟩ := h.collections c col' hcol'
    · exact .inr ⟨col, hcol, hmax⟩
    · -- the count that becomes the maximum has not passed the next identifier
      exact .inl ⟨col.nftsCount, hmax, (hs.count c col hcol).trans hc.next⟩

/-- A collection is capped by the maximum it is created with. -/
theorem capped_of_created {o : AccountId} {md sy : BoundedString} {m : UInt32} (hs : Orderly s)
    (hstep : Step s (.signed o (.createCollection md (some m) sy)) s') :
    Capped s.collectionIndex m.toNat s' := by
  cases hstep.registered with
  | same hact => exact nomatch (show true = false from hact)
  | minted hact => exact nomatch (show none = some _ from hact)
  | burned hact => exact nomatch (show none = some _ from hact)
  | created hroom hindex hcols hp =>
      refine ⟨by rw [hindex, toNat_succ hroom]; omega, ?_, fun col hcol => ?_⟩
      · rw [hp.nextNftId, hs.fresh _ le_rfl]
        exact Nat.zero_le _
      · rw [hcols, StorageMap.insert_self, Option.some.injEq] at hcol
        exact ⟨m, hcol ▸ rfl, le_rfl⟩

/-- A lock caps a collection at what it has issued. -/
theorem capped_of_locked {o : AccountId} (hs : Orderly s)
    (hstep : Step s (.signed o (.lockCollection c)) s') :
    Capped c (s.nextNftId c).toNat s' := by
  cases hstep.registered with
  | same hact => exact nomatch (show true = false from hact)
  | minted hact => exact nomatch (show none = some _ from hact)
  | burned hact => exact nomatch (show none = some _ from hact)
  | locked hindex hcol hcols hp =>
      refine ⟨by rw [hindex]; exact hs.numbered _ _ hcol, by rw [hp.nextNftId],
        fun col' hcol' => ?_⟩
      rw [hcols, StorageMap.insert_self, Option.some.injEq] at hcol'
      exact ⟨_, hcol' ▸ rfl, hs.count _ _ hcol⟩

/-! ## Every run -/

theorem capped_of_createdWith {m : UInt32} (hr : IsRun h s) (hc : CreatedWith h c m) :
    Capped c m.toNat s := by
  induction hr with
  | start =>
      obtain ⟨t, o, md, sy, hmem, -⟩ := hc
      simp at hmem
  | step hr hstep ih =>
      have hs := Reachable.orderly hr.reachable
      obtain ⟨t, o, md, sy, hmem, hindex⟩ := hc
      rcases List.mem_cons.1 hmem with heq | hmem
      · obtain ⟨rfl, rfl⟩ := Prod.mk.inj heq
        exact hindex ▸ capped_of_created hs hstep
      · exact (ih ⟨t, o, md, sy, hmem, hindex⟩).step hs hstep

/-- A locked collection stays capped at what it has issued. -/
theorem capped_of_lockedIn (hr : IsRun h s) (hl : LockedIn h c) :
    Capped c (s.nextNftId c).toNat s := by
  induction hr with
  | start =>
      obtain ⟨t, o, hmem⟩ := hl
      simp at hmem
  | @step h s s' act hr hstep ih =>
      have hs := Reachable.orderly hr.reachable
      obtain ⟨t, o, hmem⟩ := hl
      rcases List.mem_cons.1 hmem with heq | hmem
      · obtain ⟨rfl, rfl⟩ := Prod.mk.inj heq
        have hnext := hstep.next c
        rw [show (Act.signed o (Call.lockCollection c) : Act W).mintsInto = none from rfl,
          if_neg (by simp), Nat.add_zero] at hnext
        exact hnext ▸ capped_of_locked hs hstep
      · have hc := (ih ⟨t, o, hmem⟩).step hs hstep
        -- the cap is where the next identifier was, and it has not moved
        have hsame : (s'.nextNftId c).toNat = (s.nextNftId c).toNat := by
          have hle := hc.next
          have hge := hstep.next c
          omega
        exact hsame ▸ hc

/-- **Maxima and locks over a run.** A collection created with a maximum
has no more mints than that, and what is done after a collection has been
locked is no mint into it. -/
theorem mints_capped (hr : IsRun h s) :
    (∀ c m, CreatedWith h c m → mints h c ≤ m.toNat) ∧
      ∀ c, LockedIn h c → ∀ act s', Step s act s' → act.mintsInto ≠ some c := by
  refine ⟨fun c m hc => ?_, fun c hl act s' hstep hmint => ?_⟩
  · rw [← toNat_nextNftId hr]
    exact (capped_of_createdWith hr hc).next
  · have hs := Reachable.orderly hr.reachable
    have hc := (capped_of_lockedIn hr hl).step hs hstep
    have hnext := hstep.next c
    rw [if_pos hmint] at hnext
    have hle := hc.next
    omega

namespace Mock

/-- Alice mints one NFT into a collection for two, locks it and burns the
NFT. -/
def lockedEarly : List Extrinsic :=
  [(alice, .burnNft (0, 0) 10), (alice, .lockCollection 0), (alice, mintTo alice),
    (alice, .createCollection [] (some 2) [])]

theorem mints_lockedEarly : mints (history lockedEarly) 0 ≤ 2 ∧
    ∀ act s', Step (replay lockedEarly) act s' → act.mintsInto ≠ some 0 := by
  have hr : IsRun (history lockedEarly) (replay lockedEarly) := isRun_replay (by decide +kernel)
  have hcreated : CreatedWith (history lockedEarly) 0 2 :=
    ⟨genesis endowed, alice, [], [], List.mem_cons_of_mem _ (List.mem_cons_of_mem _
      (List.mem_cons_of_mem _ List.mem_cons_self)), rfl⟩
  have hlocked : LockedIn (history lockedEarly) 0 :=
    ⟨_, alice, List.mem_cons_of_mem _ List.mem_cons_self⟩
  exact ⟨(mints_capped hr).1 0 2 hcreated, (mints_capped hr).2 0 hlocked⟩

end Mock

end Rmrk
