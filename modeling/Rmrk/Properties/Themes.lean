import Rmrk.Common.Writes
import Rmrk.Helpers.Catalog
import Rmrk.Mock.Replay
/-!
# The default theme comes first

`add_theme` knows of a theme what it has stored of it: a theme without
properties is not there, and the default theme may be added to as often as
any. What it counts is right all the same, since no property is ever taken
out and no base is.
-/

namespace Rmrk

open Effect

variable {W : Type} [Config W] {s s' : State W} {act : Act W} {o : AccountId} {b : BaseId}
variable {theme : Theme} {name k : BoundedString} {u : Unit}

/-- `Themes`, as a map. -/
def State.themeOf (s : State W) :
    StorageMap (BaseId × BoundedString × BoundedString) BoundedString :=
  Entries.read s.themes

/-- **A theme of a base that is there comes after its default theme.** -/
def DefaultFirst (s : State W) : Prop :=
  ∀ b name k, (s.themeOf (b, name, k)).isSome = true →
    (s.bases b).isSome = true ∧ ∃ k', (s.themeOf (b, Equip.defaultName, k')).isSome = true

/-- **A theme has been added**: of each of its keys the last value given,
and nothing else. -/
structure ThemeAdded (b : BaseId) (theme : Theme) (s s' : State W) : Prop where
  last : ∀ ps p qs, theme.properties = ps ++ p :: qs → (∀ q ∈ qs, q.key ≠ p.key) →
    s'.themeOf (b, theme.name, p.key) = some p.value
  kept : ∀ k, (∀ p ∈ theme.properties, p.key ≠ k) →
    s'.themeOf (b, theme.name, k) = s.themeOf (b, theme.name, k)
  others : ∀ c name k, (c, name) ≠ (b, theme.name) →
    s'.themeOf (c, name, k) = s.themeOf (c, name, k)

namespace Equip

/-! ## The call -/

/-- The entries of a theme, in order. -/
def entries (b : BaseId) (theme : Theme) :
    List ((BaseId × BoundedString × BoundedString) × BoundedString) :=
  theme.properties.map fun p => ((b, theme.name, p.key), p.value)

theorem key_of_mem_entries {e : (BaseId × BoundedString × BoundedString) × BoundedString}
    (he : e ∈ entries b theme) : ∃ p ∈ theme.properties, e.1 = (b, theme.name, p.key) := by
  obtain ⟨p, hp, rfl⟩ := List.mem_map.1 he
  exact ⟨p, hp, rfl⟩

omit [Config W] in
theorem one_le_themeCount (h : 1 ≤ themeCount s b name) :
    ∃ k, (s.themeOf (b, name, k)).isSome = true := by
  obtain ⟨e, he⟩ := List.exists_mem_of_length_pos h
  obtain ⟨hmem, hkey⟩ := List.mem_filter.1 he
  obtain ⟨rfl, rfl⟩ := of_decide_eq_true hkey
  exact ⟨e.1.2.2, Entries.isSome_read hmem⟩

theorem themeAdd_writes (h : themeAdd o b theme s = .ok u s') :
    (s.bases b).isSome = true ∧
      (theme.name ≠ defaultName → ∃ k, (s.themeOf (b, defaultName, k)).isSome = true) ∧
      s'.bases = s.bases ∧ s'.themeOf = s.themeOf.insertAll (entries b theme) := by
  simp only [themeAdd, addTheme, ensure_bind_ok, get_bind_ok, okOr_bind_ok] at h
  obtain ⟨-, base, hbase, -, hdefault, h⟩ := h
  have hloop : theme.properties.foldl (fun s p => { s with
      themes := Entries.put s.themes ((b, theme.name, p.key), p.value) }) s = s' :=
    each_update_ok.1 h
  have hthemes : theme.properties.foldl (fun s p => { s with
      themes := Entries.put s.themes ((b, theme.name, p.key), p.value) }) s = { s with
        themes := theme.properties.foldl (fun l p =>
          Entries.put l ((b, theme.name, p.key), p.value)) s.themes } :=
    List.foldl_hom (fun l => { s with themes := l }) fun _ _ => rfl
  obtain rfl := hthemes.symm.trans hloop
  refine ⟨by simp [hbase], fun hne => ?_, rfl, ?_⟩
  · exact one_le_themeCount (hdefault.resolve_right hne)
  · have hput := Entries.read_foldl_put (l := s.themes) (entries b theme)
    rw [entries, List.foldl_map] at hput
    rw [entries]
    exact hput

/-- **What `theme_add` leaves of each theme.** -/
theorem themeAdd_added (h : themeAdd o b theme s = .ok u s') : ThemeAdded b theme s s' := by
  obtain ⟨-, -, -, hthemes⟩ := themeAdd_writes h
  refine ⟨fun ps p qs hps hlast => ?_, fun k hk => ?_, fun c name k hne => ?_⟩
  · rw [hthemes, entries, hps, List.map_append, List.map_cons]
    refine StorageMap.insertAll_of_last fun e he heq => ?_
    obtain ⟨q, hq, rfl⟩ := List.mem_map.1 he
    exact hlast q hq (congrArg (fun e => e.2.2) heq)
  · rw [hthemes]
    refine StorageMap.insertAll_of_ne fun e he heq => ?_
    obtain ⟨q, hq, hkey⟩ := key_of_mem_entries he
    exact hk q hq (congrArg (fun e => e.2.2) (hkey.symm.trans heq))
  · rw [hthemes]
    refine StorageMap.insertAll_of_ne fun e he heq => ?_
    obtain ⟨q, -, hkey⟩ := key_of_mem_entries he
    exact hne (congrArg (fun e => (e.1, e.2.1)) (heq.symm.trans hkey))

end Equip

/-! ## Every other call -/

variable {call : Call W}

/-- **No call but `theme_add` writes a theme.** -/
theorem dispatch_themes (hcall : ∀ b theme, call ≠ .themeAdd b theme) :
    Within (Same State.themes) (dispatch o call) := by
  have hadded : ∀ (a : AccountId) (x : NftKey) (l : Option (List ResourceTypes)),
      Within (Same State.themes) (Core.addResources a x l : M W Unit) := fun _ _ _ =>
    Core.within_addResources (fun _ _ => rfl) (fun _ _ => rfl) (fun _ _ => rfl) fun _ _ => rfl
  have hadd : ∀ (a : AccountId) (x : NftKey) (r : ResourceTypes),
      Within (Same State.themes) (Core.addResource a x r : M W Unit) := fun _ _ _ =>
    Core.within_addResource (fun _ _ => rfl) (fun _ _ => rfl) (fun _ _ => rfl) fun _ _ => rfl
  have hsend : ∀ (a : AccountId) (x : NftKey) (t : AccountIdOrCollectionNftTuple),
      Within (Same State.themes) (Core.send a x t : M W Unit) := fun _ _ _ =>
    Core.within_send (fun _ _ => rfl) (fun _ _ _ _ _ => rfl) fun _ _ => rfl
  have hbuy : ∀ (a : AccountId) (x : NftKey) (v : Option Balance) (offered : Bool),
      Within (Same State.themes) (Market.doBuy a x v offered : M W Unit) := fun _ _ _ _ =>
    Market.within_doBuy (fun _ _ => rfl) (fun _ _ => rfl) (fun _ _ _ _ _ => rfl)
      fun _ => hsend _ _ _
  cases call with
  | themeAdd b theme => exact absurd rfl (hcall b theme)
  | mintNft =>
      exact Core.within_mintNft (fun _ _ => rfl) (fun _ _ => rfl) (fun _ _ => rfl)
        (fun _ _ _ _ _ => rfl) hadded
  | mintNftDirectlyToNft =>
      exact Core.within_mintNftDirectlyToNft (fun _ _ => rfl) (fun _ _ => rfl) (fun _ _ => rfl)
        (fun _ _ _ _ _ => rfl) hadded
  | createCollection =>
      exact Core.within_createCollection (fun _ _ => rfl) (fun _ _ => rfl) fun _ _ _ _ => rfl
  | burnNft =>
      exact Core.within_burnNft (fun _ _ => rfl) (fun _ _ => rfl) (fun _ _ => rfl)
        (fun _ _ => rfl) fun _ _ _ => rfl
  | destroyCollection => exact Core.within_destroyCollection (fun _ _ => rfl) fun _ _ _ _ => rfl
  | send => exact hsend _ _ _
  | acceptNft => exact Core.within_acceptNft (fun _ _ => rfl) fun _ _ _ _ _ => rfl
  | rejectNft =>
      exact Core.within_rejectNft (fun _ _ => rfl) (fun _ _ => rfl) (fun _ _ => rfl) fun _ _ => rfl
  | changeCollectionIssuer =>
      exact Core.within_changeCollectionIssuer (fun _ _ => rfl) fun _ _ _ _ _ => rfl
  | setProperty => exact Core.within_setProperty fun _ _ => rfl
  | lockCollection => exact Core.within_lockCollection fun _ _ => rfl
  | addBasicResource => exact hadd _ _ _
  | addComposableResource => exact hadd _ _ _
  | addSlotResource => exact hadd _ _ _
  | acceptResource => exact Core.within_acceptResource fun _ _ => rfl
  | removeResource => exact Core.within_removeResource fun _ _ => rfl
  | acceptResourceRemoval => exact Core.within_acceptResourceRemoval fun _ _ => rfl
  | setPriority => exact Core.within_setPriority fun _ _ => rfl
  | changeBaseIssuer => exact Equip.within_changeBaseIssuer fun _ _ => rfl
  | equip => exact Equip.within_equip (fun _ _ => rfl) fun _ _ => rfl
  | equippable => exact Equip.within_equippable fun _ _ => rfl
  | createBase => exact Equip.within_createBase (fun _ _ => rfl) (fun _ _ => rfl) fun _ _ => rfl
  | buy => exact .transactional (hbuy _ _ _ _)
  | list => exact Market.within_list (fun _ _ => rfl) fun _ _ => rfl
  | unlist => exact Market.within_unlist (fun _ _ => rfl) fun _ _ => rfl
  | makeOffer => exact Market.within_makeOffer (fun _ _ => rfl) fun _ _ _ _ => rfl
  | withdrawOffer => exact Market.within_withdrawOffer (fun _ _ => rfl) fun _ _ _ => rfl
  | acceptOffer =>
      exact Market.within_acceptOffer (fun _ _ => rfl) (fun _ _ _ => rfl) fun _ => hbuy _ _ _ _

/-- **A base stays.** -/
theorem Step.bases_isSome (hstep : Step s act s') (hb : (s.bases b).isSome = true) :
    (s'.bases b).isSome = true := by
  cases hstep.catalogued with
  | same _ h =>
      simp only [Same, State.catalog, Prod.mk.injEq] at h
      exact h.1 ▸ hb
  | created h =>
      obtain ⟨base, -, hbases⟩ := h.bases
      rw [hbases, StorageMap.isSome_insert]
      exact .inl hb
  | equippable _ _ h => exact h ▸ hb
  | issuerChanged h =>
      subst h
      rw [Option.isSome_iff_ne_none, ne_eq, StorageMap.mutate_eq_none_iff]
      exact Option.isSome_iff_ne_none.1 hb

/-! ## Every step -/

omit [Config W] in
/-- Where the themes are as they were, the bases may grow. -/
theorem DefaultFirst.congr (hs : DefaultFirst s) (hthemes : s'.themes = s.themes)
    (hbases : ∀ b, (s.bases b).isSome = true → (s'.bases b).isSome = true) : DefaultFirst s' := by
  have heq : s'.themeOf = s.themeOf := congrArg Entries.read hthemes
  intro b name k hk
  rw [heq] at hk ⊢
  exact ⟨hbases b (hs b name k hk).1, (hs b name k hk).2⟩

/-- **`theme_add` keeps the default theme first**: it puts in a default
theme, or had counted one. -/
theorem DefaultFirst.themeAdd (hs : DefaultFirst s) (h : Equip.themeAdd o b theme s = .ok u s') :
    DefaultFirst s' := by
  obtain ⟨hbase, hdefault, hbases, hthemes⟩ := Equip.themeAdd_writes h
  have hmono : ∀ q, (s.themeOf q).isSome = true → (s'.themeOf q).isSome = true := by
    intro q hq
    rw [hthemes, StorageMap.isSome_insertAll]
    exact .inl hq
  intro c name k hk
  rw [hbases]
  have hnew := hk
  rw [hthemes, StorageMap.isSome_insertAll] at hnew
  rcases hnew with hold | ⟨e, he, heq⟩
  · -- what was there comes after a default theme that is there still
    obtain ⟨hc, k', hk'⟩ := hs c name k hold
    exact ⟨hc, k', hmono _ hk'⟩
  · obtain ⟨p, -, hkey⟩ := Equip.key_of_mem_entries he
    obtain ⟨rfl, rfl, rfl⟩ : c = b ∧ name = theme.name ∧ k = p.key := by
      simpa using heq.symm.trans hkey
    refine ⟨hbase, ?_⟩
    by_cases hname : theme.name = Equip.defaultName
    · exact ⟨p.key, hname ▸ hk⟩
    · obtain ⟨k', hk'⟩ := hdefault hname
      exact ⟨k', hmono _ hk'⟩

theorem DefaultFirst.step (hs : DefaultFirst s) (hstep : Step s act s') : DefaultFirst s' := by
  have hbases : ∀ b, (s.bases b).isSome = true → (s'.bases b).isSome = true := fun _ hb =>
    hstep.bases_isSome hb
  cases act with
  | between n w =>
      obtain ⟨-, -, rfl⟩ := hstep
      exact hs
  | signed o call =>
      have h : dispatch o call s = .ok () s' := hstep
      by_cases hcall : ∃ b theme, call = .themeAdd b theme
      · obtain ⟨b, theme, rfl⟩ := hcall
        exact hs.themeAdd h
      · have hother : ∀ b theme, call ≠ .themeAdd b theme := fun b theme heq =>
          hcall ⟨b, theme, heq⟩
        exact hs.congr (dispatch_themes hother _ _ _ h) hbases

/-- **The default theme comes first**: in every reachable state a base
with a theme is there and has a default theme; and `theme_add` leaves of
each key of the theme the last value given. -/
theorem default_theme_first :
    (∀ s : State W, Reachable s → DefaultFirst s) ∧
      ∀ (s s' : State W) (o : AccountId) (b : BaseId) (theme : Theme),
        Equip.themeAdd o b theme s = .ok () s' → ThemeAdded b theme s s' := by
  refine ⟨fun s h => ?_, fun s s' o b theme => Equip.themeAdd_added⟩
  refine h.invariant (fun s h0 => ?_) fun _ _ _ _ hs hstep => hs.step hstep
  obtain ⟨w, -, -, rfl⟩ := h0
  intro b name k hk
  cases hk

namespace Mock

/-- The default theme Alice gives a base of hers, of one key twice. -/
def addDefault : Extrinsic :=
  (alice, .themeAdd 0 ⟨Equip.defaultName, [⟨[1], [2]⟩, ⟨[1], [3]⟩], false⟩)

def themed : List Extrinsic := [addDefault, (alice, .createBase [] [] [])]

theorem defaultFirst_themed : DefaultFirst (replay themed) ∧
    (replay themed).themeOf (0, Equip.defaultName, [1]) = some [3] := by
  refine ⟨default_theme_first.1 _ (reachable_replay (by decide +kernel)), ?_⟩
  have hstep : Step (replay themed.tail) (.signed addDefault.1 addDefault.2) (replay themed) :=
    step_apply (e := addDefault) (by decide +kernel)
  exact (default_theme_first.2 _ _ _ _ _ hstep).last [⟨[1], [2]⟩] ⟨[1], [3]⟩ [] rfl (by simp)

end Mock

end Rmrk
