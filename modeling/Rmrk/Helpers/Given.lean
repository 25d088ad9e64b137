import Rmrk.Helpers.Stock
/-!
# Resources given and taken away

Which resources the NFTs have can be read off the history of a run: what
its steps have given them and none has taken away. A number is given once,
so nothing that was taken away comes back. The indexes `rmrk-equip` reads
hold all that was ever given.
-/

namespace Rmrk

open Counter Effect

variable {W : Type} [Config W] {s s' t : State W} {act : Act W} {h : List (State W × Act W)}
variable {x : NftKey} {o : AccountId} {k : NftKey × ResourceId} {body : ResourceTypes}

/-- The step gives `k.1` the resource `body`, under the number `k.2`. -/
def Act.Gives (s : State W) (act : Act W) (k : NftKey × ResourceId) (body : ResourceTypes) :
    Prop :=
  match act with
  | .signed o call =>
      call.adds = some (k.1, body) ∧ k.2 = s.nextResourceId k.1 ∨
        (Act.signed o call).Mints s k.1 ∧ (call.brings.getD [])[k.2.toNat]? = some body
  | .between .. => False

/-- The step takes the resource `k` away. -/
def Act.Removes (s : State W) (act : Act W) (k : NftKey × ResourceId) : Prop :=
  (s.resources k).isSome = true ∧
    match act with
    | .signed o (.removeResource x r) => k = (x, r) ∧ RootOwner s x o
    | .signed _ (.acceptResourceRemoval x r) => k = (x, r)
    | .signed _ (.burnNft x _) | .signed _ (.rejectNft x) => Below s x k.1
    | _ => False

/-! ## One step -/

/-- **`G` has been given and `R` taken away**, the first under numbers not
given before. -/
structure Turnover (G : NftKey × ResourceId → ResourceTypes → Prop)
    (R : NftKey × ResourceId → Prop) (s s' : State W) : Prop where
  bodies : ∀ k body, s'.bodies k = some body ↔ s.bodies k = some body ∧ ¬ R k ∨ G k body
  bases : ∀ x b, (s'.equippableBases (x, b)).isSome = true ↔
    (s.equippableBases (x, b)).isSome = true ∨
      ∃ r body, G (x, r) body ∧ body.composableBase = some b
  slots : ∀ x r q, (s'.equippableSlots (x, r, q)).isSome = true ↔
    (s.equippableSlots (x, r, q)).isSome = true ∨ ∃ body, G (x, r) body ∧ body.designated = some q
  above : ∀ k body, G k body → s.nextResourceId k.1 ≤ k.2
  numbers : ∀ x, s.nextResourceId x ≤ s'.nextResourceId x

section Turnover

omit [Config W]

variable {G G' : NftKey × ResourceId → ResourceTypes → Prop} {R R' : NftKey × ResourceId → Prop}

/-- What is given and taken away may be said in other words. -/
theorem Turnover.congr (hG : ∀ k body, G' k body ↔ G k body) (hR : ∀ k, R' k ↔ R k)
    (h : Turnover G R s s') : Turnover G' R' s s' := by
  obtain rfl : G' = G := funext fun k => funext fun body => propext (hG k body)
  obtain rfl : R' = R := funext fun k => propext (hR k)
  exact h

/-- Nothing has been given. -/
theorem Turnover.less (hG : ∀ k body, ¬ G k body)
    (hbodies : ∀ k body, s'.bodies k = some body ↔ s.bodies k = some body ∧ ¬ R k)
    (hbases : s'.equippableBases = s.equippableBases)
    (hslots : s'.equippableSlots = s.equippableSlots)
    (hnext : s'.nextResourceId = s.nextResourceId) : Turnover G R s s' where
  bodies k body := by simp only [hbodies, hG, or_false]
  bases x b := by simp only [hbases, hG, false_and, exists_false, or_false]
  slots x r q := by simp only [hslots, hG, false_and, exists_false, or_false]
  above k body hk := absurd hk (hG k body)
  numbers x := hnext ▸ UInt32.le_refl _

/-- Nothing has been given or taken away. -/
theorem Turnover.of_eq (hG : ∀ k body, ¬ G k body) (hR : ∀ k, ¬ R k)
    (hbodies : s'.bodies = s.bodies) (hbases : s'.equippableBases = s.equippableBases)
    (hslots : s'.equippableSlots = s.equippableSlots)
    (hnext : s'.nextResourceId = s.nextResourceId) : Turnover G R s s' :=
  .less hG (fun k body => by simp [hbodies, hR]) hbases hslots hnext

/-- What has been given in two steps. -/
theorem Turnover.trans (h : Turnover G (fun _ => False) s t)
    (h' : Turnover G' (fun _ => False) t s') :
    Turnover (fun k body => G k body ∨ G' k body) (fun _ => False) s s' where
  bodies k body := by
    rw [h'.bodies, h.bodies]
    simp [or_assoc]
  bases x b := by
    rw [h'.bases, h.bases, or_assoc]
    simp only [or_and_right, exists_or]
  slots x r q := by
    rw [h'.slots, h.slots, or_assoc]
    simp only [or_and_right, exists_or]
  above k body hk := by
    rcases hk with hk | hk
    · exact h.above k body hk
    · exact UInt32.le_trans (h.numbers k.1) (h'.above k body hk)
  numbers x := UInt32.le_trans (h.numbers x) (h'.numbers x)

/-- One resource has been taken away. -/
theorem Turnover.of_remove {r : ResourceId} (hG : ∀ k body, ¬ G k body)
    (hR : ∀ k, R k ↔ k = (x, r)) (h : s' = { s with resources := s.resources.remove (x, r) }) :
    Turnover G R s s' := by
  have hbodies : s'.bodies = s.bodies.remove (x, r) := bodies_remove (by rw [h])
  refine .less hG (fun k body => ?_) (by rw [h]) (by rw [h]) (by rw [h])
  rw [hbodies, StorageMap.remove_eq_some_iff, hR, and_comm]

end Turnover

/-- **What is added is given** the next number. -/
theorem Added.turnover {resource : ResourceTypes} {onMint : Bool} (hs : Shelved s)
    (h : Added o x resource onMint s s') :
    Turnover (fun k body => k = (x, s.nextResourceId x) ∧ body = resource) (fun _ => False)
      s s' := by
  obtain ⟨a, -, hres⟩ := h.resources
  have hbodies : s'.bodies = s.bodies.insert (x, s.nextResourceId x) resource :=
    bodies_insert hres
  have hfresh : s.bodies (x, s.nextResourceId x) = none :=
    congrArg (Option.map _) (hs x _ (UInt32.le_refl _))
  constructor
  · intro k body
    rw [hbodies, StorageMap.insert_eq_some_iff]
    constructor
    · rintro (⟨rfl, rfl⟩ | ⟨-, hk⟩)
      · exact .inr ⟨rfl, rfl⟩
      · exact .inl ⟨hk, id⟩
    · rintro (⟨hk, -⟩ | ⟨rfl, rfl⟩)
      · exact .inr ⟨by rintro rfl; simp [hfresh] at hk, hk⟩
      · exact .inl ⟨rfl, rfl⟩
  · intro y b
    rw [h.bases]
    refine or_congr_right ⟨?_, ?_⟩
    · rintro ⟨rfl, hb⟩
      exact ⟨_, _, ⟨rfl, rfl⟩, hb⟩
    · rintro ⟨r, body, ⟨hk, rfl⟩, hb⟩
      exact ⟨congrArg Prod.fst hk, hb⟩
  · intro y r q
    rw [h.slots]
    refine or_congr_right ⟨?_, ?_⟩
    · rintro ⟨hy, hr, hq⟩
      exact ⟨_, ⟨Prod.ext hy hr, rfl⟩, hq⟩
    · rintro ⟨body, ⟨hk, rfl⟩, hq⟩
      exact ⟨congrArg Prod.fst hk, congrArg Prod.snd hk, hq⟩
  · rintro k body ⟨rfl, -⟩
    exact UInt32.le_refl _
  · intro y
    rw [h.nextResourceId, UInt32.le_iff_toNat_le]
    by_cases hy : y = x
    · subst hy
      rw [Function.update_self, toNat_succ_of_room h.room]
      exact Nat.le_succ _
    · rw [Function.update_of_ne hy]

/-- The resources of a list are given the next numbers, in turn. -/
theorem Core.each_turnover {l : List ResourceTypes} {u : Unit} (hs : Shelved s)
    (h : each (fun res => do let _ ← resourceAdd o x res true; pure ()) l s = .ok u s') :
    Turnover (fun k body => k.1 = x ∧
      ∃ i, l[i]? = some body ∧ k.2.toNat = (s.nextResourceId x).toNat + i) (fun _ => False)
        s s' := by
  induction l generalizing s with
  | nil =>
      simp only [each, pure_ok] at h
      obtain ⟨-, rfl⟩ := h
      exact .of_eq (by simp) (fun _ => id) rfl rfl rfl rfl
  | cons resource l ih =>
      simp only [each] at h
      rw [bind_ok] at h
      obtain ⟨_, _, hadd, h⟩ := h
      simp only [bind_ok, pure_ok] at hadd
      obtain ⟨_, s₁, hadd, -, rfl⟩ := hadd
      have hadded := (resourceAdd_ok hadd).2
      have hnext : (s₁.nextResourceId x).toNat = (s.nextResourceId x).toNat + 1 := by
        rw [hadded.nextResourceId, Function.update_self, toNat_succ_of_room hadded.room]
      refine .congr (fun k body => ?_) (fun _ => Iff.rfl)
        ((hadded.turnover hs).trans (ih (hadded.shelved hs) h))
      constructor
      · rintro ⟨hk, i, hi, hnum⟩
        cases i with
        | zero =>
            obtain rfl : resource = body := by simpa using hi
            exact .inl ⟨Prod.ext hk (UInt32.toNat_inj.1 hnum), rfl⟩
        | succ i =>
            refine .inr ⟨hk, i, by simpa using hi, ?_⟩
            omega
      · rintro (⟨rfl, rfl⟩ | ⟨hk, i, hi, hnum⟩)
        · exact ⟨rfl, 0, rfl, rfl⟩
        · exact ⟨hk, i + 1, by simpa using hi, by omega⟩

/-! ### Every step -/

/-- What neither adds nor mints gives no resource. -/
theorem Act.not_gives {call : Call W} (hadds : call.adds = none)
    (hmints : (Act.signed o call).mintsInto = none) (k : NftKey × ResourceId)
    (body : ResourceTypes) : ¬ (Act.signed o call).Gives s k body := by
  rintro (⟨h, -⟩ | ⟨⟨h, -⟩, -⟩)
  · simp [hadds] at h
  · simp [hmints] at h

/-- What leaves the stock alone gives none. -/
theorem Act.not_gives_of_stocks (hact : act.stocks = false) : ¬ act.Gives s k body := by
  cases act with
  | between => exact id
  | signed o call =>
      refine Act.not_gives ?_ ?_ k body <;> cases call <;>
        first | rfl | simp [Act.stocks, Call.stocks] at hact

/-- And takes none away. -/
theorem Act.not_removes_of_stocks (hact : act.stocks = false) : ¬ act.Removes s k := by
  rintro ⟨-, h⟩
  cases act with
  | between => exact h
  | signed o call => cases call <;> first | exact h | simp [Act.stocks, Call.stocks] at hact

/-- Nor does what adds one. -/
theorem Act.not_removes_of_adds {call : Call W} {q : NftKey × ResourceTypes}
    (hcall : call.adds = some q) : ¬ (Act.signed o call).Removes s k := by
  rintro ⟨-, h⟩
  cases call <;> first | exact h | simp [Call.adds] at hcall

/-- Nor does a mint. -/
theorem Act.not_removes_of_mints {c : CollectionId} (hact : act.mintsInto = some c) :
    ¬ act.Removes s k := by
  rintro ⟨-, h⟩
  cases act with
  | between => exact h
  | signed o call => cases call <;> first | exact h | simp [Act.mintsInto] at hact

/-- To add is not to mint. -/
theorem Act.mintsInto_of_adds {call : Call W} {q : NftKey × ResourceTypes}
    (hcall : call.adds = some q) : (Act.signed o call).mintsInto = none := by
  cases call <;> first | rfl | simp [Call.adds] at hcall

/-- And to mint is not to add. -/
theorem Act.adds_of_mints {call : Call W} {c : CollectionId}
    (hact : (Act.signed o call).mintsInto = some c) : call.adds = none := by
  cases call <;> first | rfl | simp [Act.mintsInto] at hact

/-- **What is destroyed takes its resources along**, those of all that is
below. -/
theorem Act.removes_of_destroys (hact : act.destroys = some x) :
    act.Removes s k ↔ (s.resources k).isSome = true ∧ Below s x k.1 := by
  cases act with
  | between => simp [Act.destroys] at hact
  | signed o call =>
      cases call <;> simp only [Act.destroys, Option.some.injEq, reduceCtorEq] at hact
      all_goals exact hact ▸ Iff.rfl

/-- And gives none. -/
theorem Act.not_gives_of_destroys (hact : act.destroys = some x) : ¬ act.Gives s k body := by
  cases act with
  | between => exact id
  | signed o call =>
      refine Act.not_gives ?_ (Act.mintsInto_of_destroys hact) k body
      cases call <;> first | rfl | simp [Act.destroys] at hact

omit [Config W] in
theorem isSome_bodies : (s.bodies k).isSome = (s.resources k).isSome := by
  simp [State.bodies]

/-- **What a step gives and takes away.** -/
theorem Step.turnover (hr : Reachable s) (hstep : Step s act s') :
    Turnover (act.Gives s) (act.Removes s) s s' := by
  have hs := Reachable.shelved hr
  cases hstep.stocked with
  | same hact h =>
      simp only [Same, State.stock, Prod.mk.injEq] at h
      exact .of_eq (fun _ _ => Act.not_gives_of_stocks hact)
        (fun _ => Act.not_removes_of_stocks hact) (bodies_of_eq h.2.1) h.2.2.1 h.2.2.2 h.1
  | @added o call x resource hcall h =>
      refine .congr (fun k body => ?_) (fun _ => iff_of_false (Act.not_removes_of_adds hcall) id)
        (h.turnover hs)
      simp only [Act.Gives, Act.Mints, Act.mintsInto_of_adds hcall, hcall, reduceCtorEq, false_and,
        or_false, Option.some.injEq, Prod.mk.injEq]
      constructor
      · rintro ⟨⟨rfl, rfl⟩, hnum⟩
        exact ⟨Prod.ext rfl hnum, rfl⟩
      · rintro ⟨rfl, rfl⟩
        exact ⟨⟨rfl, rfl⟩, rfl⟩
  | @minted o call c t hcall ht _ h =>
      have hstock := ht
      simp only [Same, State.stock, Prod.mk.injEq] at ht
      have hfirst := nextResourceId_of_unissued (x := (c, s.nextNftId c)) hr (UInt32.le_refl _)
      have hmeans : ∀ y, (Act.signed o call).Mints s y ↔ y = (c, s.nextNftId c) := by
        intro y
        simp only [Act.Mints, hcall, Option.some.injEq]
        constructor
        · rintro ⟨rfl, hy⟩
          exact Prod.ext rfl hy.symm
        · rintro rfl
          exact ⟨rfl, rfl⟩
      have hbefore : Turnover (fun _ _ => False) (fun _ => False) s t :=
        .of_eq (fun _ _ => id) (fun _ => id) (bodies_of_eq ht.2.1) ht.2.2.1 ht.2.2.2 ht.1
      refine .congr (fun k body => ?_) (fun _ => iff_of_false (Act.not_removes_of_mints hcall) id)
        (hbefore.trans (Core.each_turnover (hs.congr hstock) h))
      simp only [Act.Gives, Act.adds_of_mints hcall, hmeans, ht.1, hfirst, reduceCtorEq, false_and,
        false_or]
      refine and_congr_right fun _ => ⟨fun hi => ⟨_, hi, by simp⟩, ?_⟩
      rintro ⟨i, hi, hnum⟩
      rw [show k.2.toNat = i by simpa using hnum]
      exact hi
  | accepted _ hres _ h =>
      have hsame : s.bodies _ = some _ := congrArg (Option.map ResourceInfo.resource) hres
      refine .of_eq (fun k body => Act.not_gives rfl rfl k body) (fun _ h => h.2) ?_ (by rw [h])
        (by rw [h]) (by rw [h])
      rw [bodies_insert (congrArg State.resources h)]
      exact Function.update_eq_self_iff.2 hsame.symm
  | removed _ hroot hres h =>
      refine .of_remove (fun k body => Act.not_gives rfl rfl k body) (fun k => ?_) h
      exact ⟨fun hk => hk.2.1, by rintro rfl; exact ⟨by simp [hres], rfl, hroot⟩⟩
  | asked _ hroot _ h =>
      refine .of_eq (fun k body => Act.not_gives rfl rfl k body) (fun k hk => hroot hk.2.2) ?_
        (by rw [h]) (by rw [h]) (by rw [h])
      exact bodies_of_mutate (f := fun res => { res with pendingRemoval := true }) (fun _ => rfl)
        (congrArg State.resources h)
  | consented _ hres _ h =>
      refine .of_remove (fun k body => Act.not_gives rfl rfl k body) (fun k => ?_) h
      exact ⟨fun hk => hk.2, by rintro rfl; exact ⟨by simp [hres], rfl⟩⟩
  | @burned _ x hact h =>
      refine .less (fun _ _ => Act.not_gives_of_destroys hact) (fun k body => ?_)
        h.equippableBases h.equippableSlots h.nextResourceId
      rw [Act.removes_of_destroys hact]
      obtain ⟨y, r⟩ := k
      by_cases hy : Below s x y
      · have hgone : s'.bodies (y, r) = none := congrArg (Option.map _) (h.below y hy r)
        rw [hgone, ← isSome_bodies]
        simp_all
      · have hold : s'.bodies (y, r) = s.bodies (y, r) :=
          congrArg (Option.map _) (h.elsewhere y hy r)
        simp [hold, hy]

/-! ## Every run -/

/-- A step of the run gave `k.1` the resource `body`, under the number
`k.2`. -/
def Given (h : List (State W × Act W)) (k : NftKey × ResourceId) (body : ResourceTypes) : Prop :=
  Run.Past (fun s act => act.Gives s k body) h

/-- A step of the run took the resource `k` away. -/
def Removed (h : List (State W × Act W)) (k : NftKey × ResourceId) : Prop :=
  Run.Past (fun s act => act.Removes s k) h

/-- The number of what was there before some step has been given. -/
theorem lt_of_past {E : State W → Act W → Prop}
    (hE : ∀ s act s', Reachable s → Step s act s' → E s act → (s.resources k).isSome = true)
    (hr : IsRun h s) (hk : Run.Past E h) : k.2 < s.nextResourceId k.1 := by
  induction hr with
  | start h0 => simp [Run.Past] at hk
  | @step h s s' act hr hstep ih =>
      refine UInt32.lt_of_lt_of_le ?_ ((hstep.turnover hr.reachable).numbers k.1)
      rcases Run.past_cons.1 hk with hlast | hk
      · -- what is there has a number
        have hsome := hE s act s' hr.reachable hstep hlast
        by_contra hle
        simp [Reachable.shelved hr.reachable k.1 k.2 (UInt32.not_lt.1 hle)] at hsome
      · exact ih hk

/-- The number of what was taken away has been given. -/
theorem lt_of_removed (hr : IsRun h s) (hk : Removed h k) : k.2 < s.nextResourceId k.1 :=
  lt_of_past (fun _ _ _ _ _ hremoves => hremoves.1) hr hk

/-- **The resources of a state** are those given and not taken away. -/
theorem bodies_iff (hr : IsRun h s) : s.bodies k = some body ↔ Given h k body ∧ ¬ Removed h k := by
  refine Run.past_not_past_iff (P := fun s => s.bodies k = some body) (fun s h0 => ?_)
    (fun s act s' hr hstep => (hstep.turnover hr).bodies k body)
    (fun h s act s' hr hstep hgives => ?_) hr
  · obtain ⟨w, -, -, rfl⟩ := h0
    simp [State.bodies, genesis]
  · -- the number is a new one
    have hnew := (hstep.turnover hr.reachable).above k body hgives
    refine ⟨fun hremoves => ?_, fun hremoved => ?_⟩
    · have hsome := hremoves.1
      simp [Reachable.shelved hr.reachable k.1 k.2 hnew] at hsome
    · exact UInt32.not_lt.2 hnew (lt_of_removed hr hremoved)

/-- **The bases an NFT is entered for** are those of the composable resources
it was ever given. -/
theorem equippableBases_iff {b : BaseId} (hr : IsRun h s) :
    (s.equippableBases (x, b)).isSome = true ↔
      ∃ r body, Given h (x, r) body ∧ body.composableBase = some b := by
  rw [Run.past_iff (P := fun s => (s.equippableBases (x, b)).isSome = true) (fun s h0 => ?_)
    (fun s act s' hr hstep => (hstep.turnover hr).bases x b) hr]
  · constructor
    · rintro ⟨e, he, r, body, hgives, hb⟩
      exact ⟨r, body, ⟨e, he, hgives⟩, hb⟩
    · rintro ⟨r, body, ⟨e, he, hgives⟩, hb⟩
      exact ⟨e, he, r, body, hgives, hb⟩
  · obtain ⟨w, -, -, rfl⟩ := h0
    simp [genesis]

/-- And the slots are those its resources were for. -/
theorem equippableSlots_iff {r : ResourceId} {q : BaseId × SlotId} (hr : IsRun h s) :
    (s.equippableSlots (x, r, q)).isSome = true ↔
      ∃ body, Given h (x, r) body ∧ body.designated = some q := by
  rw [Run.past_iff (P := fun s => (s.equippableSlots (x, r, q)).isSome = true) (fun s h0 => ?_)
    (fun s act s' hr hstep => (hstep.turnover hr).slots x r q) hr]
  · constructor
    · rintro ⟨e, he, body, hgives, hq⟩
      exact ⟨body, ⟨e, he, hgives⟩, hq⟩
    · rintro ⟨body, ⟨e, he, hgives⟩, hq⟩
      exact ⟨e, he, body, hgives, hq⟩
  · obtain ⟨w, -, -, rfl⟩ := h0
    simp [genesis]

end Rmrk
