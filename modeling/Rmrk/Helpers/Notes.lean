import Rmrk.Common.Writes
import Rmrk.Helpers.Effects
/-!
# The calls that move nothing

Most dispatchables leave every NFT where it is. Those of `rmrk-core` that
add to, accept, remove or order the resources of an NFT, or set a
property of it, change its notes and no other NFT's; the rest change no
NFT's.
-/

namespace Rmrk

open Effect Pointer

variable {W : Type} [Config W] {s s' t : State W} {x y p : NftKey} {o a : AccountId} {u : Unit}

namespace Core

/-! ## `rmrk-core` -/

omit [Config W] in
/-- The two indexes gain what the resource is for. -/
theorem indexResource_ok {r : ResourceId} {resource : ResourceTypes}
    (h : indexResource x r resource s = .ok u s') :
    ∃ bases slots, s' = { s with equippableBases := bases, equippableSlots := slots } ∧
      (∀ k, (bases k).isSome = true ↔ (s.equippableBases k).isSome = true ∨
        k.1 = x ∧ resource.composableBase = some k.2) ∧
      ∀ k, (slots k).isSome = true ↔ (s.equippableSlots k).isSome = true ∨
        k.1 = x ∧ k.2.1 = r ∧ resource.designated = some k.2.2 := by
  have hbases : ∀ (b : BaseId) (k : NftKey × BaseId),
      ((s.equippableBases.insert (x, b) ()) k).isSome = true ↔
        (s.equippableBases k).isSome = true ∨ k.1 = x ∧ b = k.2 := by
    intro b k
    rw [StorageMap.isSome_insert, Prod.ext_iff, eq_comm (a := b)]
  have hslots : ∀ (q : BaseId × SlotId) (k : NftKey × ResourceId × BaseId × SlotId),
      ((s.equippableSlots.insert (x, r, q) ()) k).isSome = true ↔
        (s.equippableSlots k).isSome = true ∨ k.1 = x ∧ k.2.1 = r ∧ q = k.2.2 := by
    intro q k
    rw [StorageMap.isSome_insert, Prod.ext_iff, Prod.ext_iff (x := k.2), eq_comm (a := q)]
  cases resource with
  | basic res =>
      simp only [indexResource, pure_ok] at h
      exact ⟨_, _, h.2.symm, by simp [ResourceTypes.composableBase],
        by simp [ResourceTypes.designated]⟩
  | composable res =>
      simp only [indexResource, update_bind_ok] at h
      cases hres : res.slot with
      | some q =>
          simp only [hres, update_ok] at h
          refine ⟨_, _, h.symm, fun k => ?_, fun k => ?_⟩
          · simpa [ResourceTypes.composableBase] using hbases res.base k
          · simpa [ResourceTypes.designated, hres] using hslots q k
      | none =>
          simp only [hres, pure_ok, true_and] at h
          refine ⟨_, _, h.symm, fun k => ?_, by simp [ResourceTypes.designated, hres]⟩
          simpa [ResourceTypes.composableBase] using hbases res.base k
  | slot res =>
      simp only [indexResource, update_ok] at h
      refine ⟨_, _, h.symm, by simp [ResourceTypes.composableBase], fun k => ?_⟩
      simpa [ResourceTypes.designated] using hslots (res.base, res.slot) k

/-- `resource_add` is the issuer's, to an NFT that is not locked. -/
theorem resourceAdd_ok {resource : ResourceTypes} {addingOnMint : Bool} {r : ResourceId}
    (h : resourceAdd o x resource addingOnMint s = .ok r s') :
    r = s.nextResourceId x ∧ Added o x resource addingOnMint s s' := by
  simp only [resourceAdd, getNextResourceId, bind_assoc, get_bind_ok, okOr_bind_ok,
    ensure_bind_ok, update_bind_ok, pure_bind_ok, lookupRootOwner_bind_ok, checkedAdd,
    Option.ite_none_right_eq_some, Option.some.injEq] at h
  obtain ⟨col, hcol, id, ⟨hroom, rfl⟩, hissuer, owner, root, hroot, hlock, h⟩ := h
  simp only [bind_ok, update_ok, pure_ok] at h
  obtain ⟨_, s₁, hidx, _, _, hs', rfl, rfl⟩ := h
  obtain ⟨bases, slots, hs₁, hbases, hslots⟩ := indexResource_ok hidx
  subst hs' hs₁
  refine ⟨rfl, ?_⟩
  exact {
    issuer := ⟨col, hcol, hissuer⟩, unlocked := hlock, room := hroom, nextResourceId := rfl
    resources := ⟨owner, ⟨root, hroot⟩, rfl⟩, bases := hbases, slots := hslots, frame := rfl }

/-- What is added is a note. -/
theorem noted_of_added {resource : ResourceTypes} {onMint : Bool}
    (h : Added o x resource onMint s s') : Noted x s s' := by
  obtain ⟨a, -, hres⟩ := h.resources
  have hfits : ∀ k, (s.equippableSlots k).isSome = true → (s'.equippableSlots k).isSome = true :=
    fun k hk => (h.slots k).2 (.inl hk)
  have hframe := h.frame
  generalize s'.nextResourceId = next, s'.equippableBases = bases,
    s'.equippableSlots = slots, s'.resources = resources at hframe hres hfits
  subst hframe hres
  refine ⟨.of_eq rfl rfl hfits, fun z hz => ⟨fun r => ?_, fun _ => rfl, fun _ => rfl⟩⟩
  exact StorageMap.insert_of_ne fun h => hz (congrArg Prod.fst h)

/-- The call adds one resource, and is not told that it comes with a mint. -/
theorem addResource_ok {resource : ResourceTypes} (h : addResource o x resource s = .ok u s') :
    Added o x resource false s s' := by
  simp only [addResource, transactional_ok, bind_ok, pure_ok] at h
  obtain ⟨_, _, h, -, rfl⟩ := h
  exact (resourceAdd_ok h).2

/-- A write of one resource of `x` is a note on `x`. -/
theorem noted_of_resource {m : StorageMap (NftKey × ResourceId) ResourceInfo}
    (hs' : s' = { s with resources := m }) (hm : ∀ z, z ≠ x → ∀ r, m (z, r) = s.resources (z, r)) :
    Noted x s s' := by
  subst hs'
  exact ⟨.of_eq rfl rfl fun _ => id, fun z hz => ⟨hm z hz, fun _ => rfl, fun _ => rfl⟩⟩

/-! Three calls write a resource that is there: what each checks, and all
that it writes. -/

/-- The root owner accepts what waits for it. -/
theorem acceptResource_writes {r : ResourceId} (h : acceptResource o x r s = .ok u s') :
    RootOwner s x o ∧ ∃ res, s.resources (x, r) = some res ∧ res.pending = true ∧ s' = { s with
      resources := s.resources.insert (x, r) { res with pending := false } } := by
  simp only [acceptResource, transactional_ok, get_bind_ok, okOr_bind_ok, ensure_bind_ok,
    lookupRootOwner_bind_ok, update_ok] at h
  obtain ⟨res, hres, owner, root, hroot, rfl, hpending, rfl⟩ := h
  exact ⟨⟨root, hroot⟩, res, hres, hpending, rfl⟩

/-- The issuer removes a resource of what it owns at the root, and asks
for the removal of any other. -/
theorem removeResource_writes {r : ResourceId} (h : removeResource o x r s = .ok u s') :
    (∃ col, s.collections x.1 = some col ∧ col.issuer = o) ∧
      ∃ res, s.resources (x, r) = some res ∧
        (RootOwner s x o ∧ s' = { s with resources := s.resources.remove (x, r) } ∨
          ¬ RootOwner s x o ∧ s' = { s with
            resources := s.resources.mutate (x, r)
              fun r => { r with pendingRemoval := true } }) := by
  simp only [removeResource, transactional_ok, resourceRemove, get_bind_ok, okOr_bind_ok,
    ensure_bind_ok, lookupRootOwner_bind_ok] at h
  obtain ⟨col, hcol, owner, root, hroot, rfl, hres, h⟩ := h
  obtain ⟨res, hres⟩ := Option.isSome_iff_exists.1 hres
  refine ⟨⟨col, hcol, rfl⟩, res, hres, ?_⟩
  split at h <;> rw [update_ok] at h
  · next howner =>
      subst howner
      exact .inl ⟨⟨root, hroot⟩, h.symm⟩
  · next howner =>
      exact .inr ⟨fun hyes => howner (RootOwner.unique ⟨root, hroot⟩ hyes), h.symm⟩

/-- The root owner consents to a removal that has been asked for. Whether the
resource itself has been accepted is not looked at. -/
theorem acceptResourceRemoval_writes {r : ResourceId}
    (h : acceptResourceRemoval o x r s = .ok u s') :
    RootOwner s x o ∧ ∃ res, s.resources (x, r) = some res ∧ res.pendingRemoval = true ∧
      s' = { s with resources := s.resources.remove (x, r) } := by
  simp only [acceptResourceRemoval, transactional_ok, acceptRemoval, get_bind_ok, okOr_bind_ok,
    ensure_bind_ok, lookupRootOwner_bind_ok, update_ok] at h
  obtain ⟨owner, root, hroot, rfl, res, hres, hremoval, rfl⟩ := h
  exact ⟨⟨root, hroot⟩, res, hres, hremoval, rfl⟩

/-- An acceptance is a note, and leaves the resource with its pending mark
off. -/
theorem acceptResource_ok {r : ResourceId} (h : acceptResource o x r s = .ok u s') :
    RootOwner s x o ∧ (∃ res, s.resources (x, r) = some res ∧ res.pending = true ∧
      s'.resources (x, r) = some { res with pending := false }) ∧ Noted x s s' := by
  obtain ⟨hroot, res, hres, hpending, rfl⟩ := acceptResource_writes h
  refine ⟨hroot, ⟨res, hres, hpending, by simp⟩, noted_of_resource rfl fun z hz r' => ?_⟩
  simp [hz]

/-- So is a removal, done or asked for: the one deletes the resource, the
other changes its mark and nothing else. -/
theorem removeResource_ok {r : ResourceId} (h : removeResource o x r s = .ok u s') :
    (∃ c, s.collections x.1 = some c ∧ c.issuer = o) ∧ (∃ res, s.resources (x, r) = some res ∧
      (RootOwner s x o → s'.resources (x, r) = none) ∧
      (¬ RootOwner s x o → s' = { s with
        resources := s.resources.mutate (x, r) fun r => { r with pendingRemoval := true } })) ∧
      Noted x s s' := by
  obtain ⟨hissuer, res, hres, ⟨hroot, rfl⟩ | ⟨hroot, rfl⟩⟩ := removeResource_writes h
  · refine ⟨hissuer, ⟨res, hres, fun _ => by simp, fun hno => absurd hroot hno⟩, ?_⟩
    exact noted_of_resource rfl fun z hz r' => by simp [hz]
  · refine ⟨hissuer, ⟨res, hres, fun hyes => absurd hyes hroot, fun _ => rfl⟩, ?_⟩
    exact noted_of_resource rfl fun z hz r' => by simp [hz]

/-- And so is consent to one. -/
theorem acceptResourceRemoval_ok {r : ResourceId} (h : acceptResourceRemoval o x r s = .ok u s') :
    RootOwner s x o ∧ (∃ res, s.resources (x, r) = some res ∧ s'.resources (x, r) = none) ∧
      Noted x s s' := by
  obtain ⟨hroot, res, hres, -, rfl⟩ := acceptResourceRemoval_writes h
  exact ⟨hroot, ⟨res, hres, by simp⟩, noted_of_resource rfl fun z hz r' => by simp [hz]⟩

/-- The entries `priority_set` makes, from the `n`th on. -/
def ranked (x : NftKey) (l : List ResourceId) (n : ℕ) : List ((NftKey × ResourceId) × UInt32) :=
  (l.zipIdx n).map fun e => ((x, e.1), UInt32.ofNat e.2)

/-- Each is under the NFT and under a resource of the list. -/
theorem key_of_mem_ranked {l : List ResourceId} {n : ℕ} {e : (NftKey × ResourceId) × UInt32}
    (he : e ∈ ranked x l n) : e.1.1 = x ∧ e.1.2 ∈ l := by
  obtain ⟨f, hf, rfl⟩ := List.mem_map.1 he
  exact ⟨rfl, List.fst_mem_of_mem_zipIdx hf⟩

/-- They are all of one NFT. -/
theorem insertAll_ranked_of_ne {m : StorageMap (NftKey × ResourceId) UInt32} {l : List ResourceId}
    {z : NftKey} {r : ResourceId} (hz : z ≠ x) :
    (m.removePrefix x).insertAll (ranked x l 0) (z, r) = m (z, r) := by
  have hkept : ∀ e ∈ ranked x l 0, e.1 ≠ (z, r) := fun e he heq =>
    hz ((congrArg Prod.fst heq).symm.trans (key_of_mem_ranked he).1)
  exact (StorageMap.insertAll_of_ne hkept).trans (by simp [StorageMap.removePrefix_apply, hz])

omit [Config W] in
/-- The loop of `priority_set` from position `n` on, by induction on what is
left of the list. -/
theorem insertPriorities_ok {n : ℕ} {l : List ResourceId}
    (h : insertPriorities x (UInt32.ofNat n) l s = .ok u s') :
    s' = { s with priorities := s.priorities.insertAll (ranked x l n) } := by
  induction l generalizing n s with
  | nil => exact (pure_ok.1 h).2.symm
  | cons r l ih =>
      simp only [insertPriorities, update_bind_ok] at h
      have hnext : UInt32.ofNat n + 1 = UInt32.ofNat (n + 1) := (UInt32.ofNat_add n 1).symm
      rw [hnext] at h
      exact ih h

/-- **What `set_priority` writes**: entries in a row, where there are none
left. -/
theorem setPriority_writes {l : List ResourceId} (h : setPriority o x l s = .ok u s') :
    RootOwner s x o ∧ s.lock x = false ∧ s' = { s with
      priorities := (s.priorities.removePrefix x).insertAll (ranked x l 0) } := by
  simp only [setPriority, transactional_ok, prioritySet, get_bind_ok, ensure_bind_ok,
    lookupRootOwner_bind_ok, update_bind_ok] at h
  obtain ⟨owner, root, hroot, rfl, hlock, h⟩ := h
  exact ⟨⟨root, hroot⟩, hlock, insertPriorities_ok (n := 0) h⟩

/-- Putting the resources of an NFT in order is a note on it. -/
theorem setPriority_ok {l : List ResourceId} (h : setPriority o x l s = .ok u s') :
    RootOwner s x o ∧ s.lock x = false ∧ Noted x s s' := by
  obtain ⟨hroot, hlock, rfl⟩ := setPriority_writes h
  refine ⟨hroot, hlock, .of_eq rfl rfl fun _ => id, fun z hz => ?_⟩
  exact ⟨fun _ => rfl, fun r => insertAll_ranked_of_ne hz, fun _ => rfl⟩

/-- What `set_property` checks, and all that it writes. -/
theorem setProperty_writes {c : CollectionId} {n : Option NftId} {k v : BoundedString}
    (h : setProperty o c n k v s = .ok u s') :
    ((∃ col, s.collections c = some col ∧ col.issuer = o) ∧
      ∀ m, n = some m → s.lock (c, m) = false ∧ RootOwner s (c, m) o) ∧
      s' = { s with properties := s.properties.insert (c, n, k) v } := by
  simp only [setProperty, transactional_ok, propertySet, get_bind_ok, okOr_bind_ok,
    ensure_bind_ok] at h
  obtain ⟨col, hcol, rfl, h⟩ := h
  cases n with
  | none =>
      simp only [update_ok] at h
      exact ⟨⟨⟨col, hcol, rfl⟩, by simp⟩, h.symm⟩
  | some m =>
      simp only [ensure_bind_ok, lookupRootOwner_bind_ok, update_ok] at h
      obtain ⟨hlock, owner, root, hroot, rfl, rfl⟩ := h
      refine ⟨⟨⟨col, hcol, rfl⟩, ?_⟩, rfl⟩
      rintro m' ⟨⟩
      exact ⟨hlock, root, hroot⟩

/-- `property_set` on an NFT is its root owner's, who is the issuer, and
the NFT is not locked. -/
theorem setProperty_ok {c : CollectionId} {n : Option NftId} {k v : BoundedString}
    (h : setProperty o c n k v s = .ok u s') :
    Quiet s s' ∧ (∀ m, n = some m → s.lock (c, m) = false ∧ RootOwner s (c, m) o) ∧
      ∀ z : NftKey, some z.2 ≠ n ∨ z.1 ≠ c → SameNotes z s s' := by
  obtain ⟨⟨-, hon⟩, rfl⟩ := setProperty_writes h
  refine ⟨.of_eq rfl rfl fun _ => id, hon, fun z hz => ⟨fun _ => rfl, fun _ => rfl, fun k' => ?_⟩⟩
  simp only [StorageMap.insert_apply, Prod.mk.injEq]
  rcases hz with hz | hz <;> simp [hz]

/-! Four calls write a collection: what each checks, and all that it
writes. -/

/-- A new collection takes the index and has minted nothing. -/
theorem createCollection_writes {md sy : BoundedString} {max : Option UInt32}
    (h : createCollection o md max sy s = .ok u s') :
    s.collectionIndex ≠ 4294967295 ∧ ∃ w,
      Uniques.doCreateCollection s.ext s.collectionIndex o o = .ok w ∧ s' = { s with
        collectionIndex := s.collectionIndex + 1
        collections := s.collections.insert s.collectionIndex
          { issuer := o, metadata := md, max, symbol := sy, nftsCount := 0 }
        ext := w } := by
  simp only [createCollection, transactional_ok, collectionCreate, bind_assoc, get_bind_ok,
    ensure_bind_ok, update_bind_ok, pure_bind_ok, external_ok] at h
  obtain ⟨hroom, w, hw, rfl⟩ := h
  exact ⟨hroom, w, hw, rfl⟩

/-- What `destroy_collection` destroys has no items. -/
theorem destroyCollection_writes {c : CollectionId} (h : destroyCollection o c s = .ok u s') :
    (∀ n, s.owner (c, n) = none) ∧ ∃ d w, Uniques.doDestroyCollection s.ext c d o = .ok w ∧
      s' = { s with collections := s.collections.remove c, ext := w } := by
  simp only [destroyCollection, transactional_ok, collectionBurn, bind_assoc, get_bind_ok,
    okOr_bind_ok, ensure_bind_ok, update_bind_ok, external_ok] at h
  obtain ⟨col, hcol, -, d, hd, hitems, w, hw, rfl⟩ := h
  exact ⟨fun n => Uniques.owner_of_witness hd hitems, d, w, hw, rfl⟩

/-- The new issuer is the account the source stands for. -/
theorem changeCollectionIssuer_checks {c : CollectionId} {source : Config.Source W}
    (h : changeCollectionIssuer o c source s = .ok u s') :
    ∃ col a w, s.collections c = some col ∧ col.issuer = o ∧ Config.lookup source = .ok a ∧
      Uniques.transferOwnership s.ext o c a = .ok w ∧ s' = { s with
        collections := s.collections.mutate c fun col => { col with issuer := a }
        ext := w } := by
  simp only [changeCollectionIssuer, transactional_ok, collectionChangeIssuer, bind_assoc,
    get_bind_ok, okOr_bind_ok, ensure_bind_ok, update_bind_ok, pure_bind_ok, ofResult_bind_ok,
    external_ok] at h
  obtain ⟨col, hcol, hissuer, a, ha, -, -, w, hw, rfl⟩ := h
  refine ⟨col, a, w, hcol, hissuer, ?_, hw, rfl⟩
  cases hl : Config.lookup source with
  | ok b => simpa [hl, Except.mapError] using ha
  | error e => simp [hl, Except.mapError] at ha

/-- The same, without what the lookup answered. -/
theorem changeCollectionIssuer_writes {c : CollectionId} {source : Config.Source W}
    (h : changeCollectionIssuer o c source s = .ok u s') :
    ∃ col a w, s.collections c = some col ∧ col.issuer = o ∧
      Uniques.transferOwnership s.ext o c a = .ok w ∧ s' = { s with
        collections := s.collections.mutate c fun col => { col with issuer := a }
        ext := w } := by
  obtain ⟨col, a, w, hcol, hissuer, -, h⟩ := changeCollectionIssuer_checks h
  exact ⟨col, a, w, hcol, hissuer, h⟩

omit [Config W] in
/-- A lock is the issuer's, and caps the collection at what it has minted. -/
theorem lockCollection_checks {c : CollectionId} (h : lockCollection o c s = .ok u s') :
    ∃ col, s.collections c = some col ∧ col.issuer = o ∧ s' = { s with
      collections := s.collections.insert c { col with max := some col.nftsCount } } := by
  simp only [lockCollection, transactional_ok, collectionLock, bind_assoc, get_bind_ok,
    okOr_bind_ok, ensure_bind_ok, update_bind_ok, pure_bind_ok, pure_ok, true_and] at h
  obtain ⟨col, hcol, hissuer, rfl⟩ := h
  exact ⟨col, hcol, hissuer, rfl⟩

omit [Config W] in
/-- The same, without the signer. -/
theorem lockCollection_writes {c : CollectionId} (h : lockCollection o c s = .ok u s') :
    ∃ col, s.collections c = some col ∧ s' = { s with
      collections := s.collections.insert c { col with max := some col.nftsCount } } := by
  obtain ⟨col, hcol, -, h⟩ := lockCollection_checks h
  exact ⟨col, hcol, h⟩

/-- Making a class gives nobody an item. -/
theorem createCollection_ok {md sy : BoundedString} {max : Option UInt32}
    (h : createCollection o md max sy s = .ok u s') : Silent s s' := by
  obtain ⟨-, w, hw, rfl⟩ := createCollection_writes h
  exact .of_eq (Uniques.owner_doCreateCollection hw) rfl rfl rfl

/-- Nor does destroying one take an item from anybody: there was none. -/
theorem destroyCollection_ok {c : CollectionId} (h : destroyCollection o c s = .ok u s') :
    Silent s s' := by
  obtain ⟨hitems, d, w, hw, rfl⟩ := destroyCollection_writes h
  refine .of_eq ?_ rfl rfl rfl
  funext z
  obtain ⟨c', n⟩ := z
  simp only [State.owner, Uniques.owner_doDestroyCollection hw]
  split
  · next hcc => rw [hcc]; exact (hitems n).symm
  · rfl

/-- A class that changes hands takes no item with it. -/
theorem changeCollectionIssuer_ok {c : CollectionId} {source : Config.Source W}
    (h : changeCollectionIssuer o c source s = .ok u s') : Silent s s' := by
  obtain ⟨-, a, w, -, -, hw, rfl⟩ := changeCollectionIssuer_writes h
  exact .of_eq (Uniques.owner_transferOwnership hw) rfl rfl rfl

/-- A lock is a write of the collection alone. -/
theorem lockCollection_ok {c : CollectionId} (h : lockCollection o c s = .ok u s') :
    Silent s s' := by
  obtain ⟨col, -, rfl⟩ := lockCollection_writes h
  exact .of_eq rfl rfl rfl rfl

end Core

/-! ## `rmrk-equip` -/

namespace Equip

/-- A base is no NFT. -/
theorem changeBaseIssuer_ok {b : BaseId} {a : Config.Source W}
    (h : changeBaseIssuer o b a s = .ok u s') : Silent s s' := by
  simp only [changeBaseIssuer, baseChangeIssuer, bind_assoc, get_bind_ok, okOr_bind_ok,
    ensure_bind_ok, update_bind_ok, pure_bind_ok, ofResult_bind_ok, pure_ok, true_and] at h
  obtain ⟨base, hbase, -, b, hb, -, -, rfl⟩ := h
  exact .of_eq rfl rfl rfl rfl

/-- Nor is a slot of one, whatever its list is. -/
theorem equippable_ok {b : BaseId} {sl : SlotId} {l : EquippableList}
    (h : equippable o b sl l s = .ok u s') : Silent s s' := by
  simp only [equippable, doEquippable, get_bind_ok, okOr_bind_ok, ensure_bind_ok] at h
  obtain ⟨base, hbase, -, part, hpart, h⟩ := h
  cases part with
  | fixedPart p => simp at h
  | slotPart p =>
      simp only [update_ok] at h
      subst h
      exact .of_eq rfl rfl rfl rfl

/-- Nor are its themes, written one property after the other. -/
theorem themeAdd_ok {b : BaseId} {theme : Theme} (h : themeAdd o b theme s = .ok u s') :
    Silent s s' := by
  simp only [themeAdd, addTheme, get_bind_ok, okOr_bind_ok, ensure_bind_ok] at h
  obtain ⟨-, base, hbase, -, -, h⟩ := h
  refine each_ok (fun _ => .of_eq rfl rfl rfl rfl) (fun _ _ _ => Silent.trans) ?_ h
  intro prop _ s₁ s₂ _ h
  simp only [insertTheme, update_ok] at h
  subst h
  exact .of_eq rfl rfl rfl rfl

/-- Nor are its parts. -/
theorem createBase_ok {bt sy : BoundedString} {parts : List PartType}
    (h : createBase o bt sy parts s = .ok u s') : Silent s s' := by
  simp only [createBase, baseCreate, getNextBaseId, bind_assoc, get_bind_ok, okOr_bind_ok,
    update_bind_ok, pure_bind_ok] at h
  obtain ⟨id, -, h⟩ := h
  rw [bind_ok] at h
  obtain ⟨_, s₁, hparts, h⟩ := h
  simp only [update_bind_ok, pure_bind_ok, pure_ok, true_and] at h
  subst h
  have hloop : Silent s s₁ := by
    refine Silent.trans ?_
      (each_ok (fun _ => .of_eq rfl rfl rfl rfl) (fun _ _ _ => Silent.trans) ?_ hparts)
    · exact .of_eq rfl rfl rfl rfl
    · intro part _ s₁ s₂ _ h
      simp only [update_ok] at h
      subst h
      exact .of_eq rfl rfl rfl rfl
  exact hloop.trans (.of_eq rfl rfl rfl rfl)

end Equip

/-! ## `rmrk-market` -/

namespace Market

/-- An offer moves money into reserve, and no NFT. -/
theorem makeOffer_ok {v : Balance} {e : Option BlockNumber}
    (h : makeOffer o x v e s = .ok u s') : Silent s s' := by
  simp only [makeOffer, transactional_ok, get_bind_ok, okOr_bind_ok, ensure_bind_ok,
    external_bind_ok, update_ok] at h
  obtain ⟨-, owner, howner, -, -, w, hw, rfl⟩ := h
  exact .of_eq (Config.owner_reserve hw) rfl rfl rfl

/-- And back. -/
theorem withdrawOffer_ok (h : withdrawOffer o x s = .ok u s') :
    Silent s s' := by
  simp only [withdrawOffer, transactional_ok, get_bind_ok, okOr_bind_ok, ensure_bind_ok,
    external_bind_ok, update_ok, Except.ok.injEq, exists_eq_left'] at h
  obtain ⟨offer, hoffer, owner, howner, -, rfl⟩ := h
  exact .of_eq Config.owner_unreserve rfl rfl rfl

end Market

end Rmrk
