import Rmrk.Common.Pointer
/-!
# Groves

A forest whose trees stand on named grounds. A node stands on a ground, or
under another node that is there, and from every node the way up ends on a
ground. Nodes are planted and moved one at a time, with all that stands
under them, and felled with all that stands under them.
-/

open Relation Pointer

variable {γ α : Type*}

/-- Where a node stands. -/
inductive Place (γ α : Type*) where
  | ground (c : γ)
  | under (p : α)

/-- The node a place is under, if it is under one. -/
def Place.node : Place γ α → Option α
  | .ground _ => none
  | .under p => some p

variable {place : α → Option (Place γ α)} {x y p : α} {c c' : γ} {t : Place γ α}

/-- The node `x` stands under. -/
def nodeAbove (place : α → Option (Place γ α)) (x : α) : Option α := (place x).bind Place.node

/-- **`x` stands on `c`**, by way of the nodes it stands under. -/
inductive Stands (place : α → Option (Place γ α)) : α → γ → Prop
  | ground {x : α} {c : γ} : place x = some (.ground c) → Stands place x c
  | under {x p : α} {c : γ} : place x = some (.under p) → Stands place p c → Stands place x c

theorem nodeAbove_eq_some : nodeAbove place x = some p ↔ place x = some (.under p) := by
  unfold nodeAbove
  cases place x with
  | none => simp
  | some t => cases t <;> simp [Place.node]

namespace Stands

theorem isSome (h : Stands place x c) : (place x).isSome = true := by
  cases h with
  | ground hx => simp [hx]
  | under hx => simp [hx]

theorem of_above (hp : nodeAbove place x = some p) : Stands place x c ↔ Stands place p c := by
  rw [nodeAbove_eq_some] at hp
  refine ⟨fun h => ?_, .under hp⟩
  cases h with
  | ground hx => simp [hp] at hx
  | under hx h =>
      obtain rfl : p = _ := by simpa [hp] using hx
      exact h

/-- **A node stands where the nodes above it stand.** -/
theorem of_reaches (h : Reaches (nodeAbove place) x y) : Stands place x c ↔ Stands place y c := by
  induction h with
  | refl => rfl
  | tail _ hyz ih => exact ih.trans (of_above hyz)

/-- **Where the way up is the same, so is its end.** -/
theorem congr {place' : α → Option (Place γ α)}
    (hxy : ∀ y, Reaches (nodeAbove place) x y → place' y = place y) (h : Stands place x c) :
    Stands place' x c := by
  induction h with
  | @ground x c hx => exact .ground ((hxy x .refl).trans hx)
  | @under x p c hx _ ih =>
      refine .under ((hxy x .refl).trans hx) (ih fun y hy => hxy y (.head ?_ hy))
      exact nodeAbove_eq_some.2 hx

end Stands

/-- **A grove**: what is there stands on a ground. -/
@[ext]
structure Grove (γ α : Type*) where
  place : α → Option (Place γ α)
  stands : ∀ x, (place x).isSome = true → ∃ c, Stands place x c

namespace Grove

variable {g g' : Grove γ α}

/-- The node `x` stands under. -/
abbrev above (g : Grove γ α) : α → Option α := nodeAbove g.place

/-- Nothing is there. -/
def bare : Grove γ α where
  place _ := none
  stands _ h := by simp at h

/-- What stands under a node has that node there. -/
theorem isSome_of_reaches (h : Reaches g.above x y) (hx : (g.place x).isSome = true) :
    (g.place y).isSome = true := by
  obtain ⟨c, hc⟩ := g.stands x hx
  exact ((Stands.of_reaches h).1 hc).isSome

/-- **`x` can be put at `t`**: a ground, or a node that is there and is
neither `x` nor under it. -/
def Fits (g : Grove γ α) (x : α) (t : Place γ α) : Prop :=
  ∀ p, t = .under p → (g.place p).isSome = true ∧ ¬ Reaches g.above p x

/-- What is not there yet fits under all that is. -/
theorem fits_under_iff (hx : g.place x = none) :
    g.Fits x (.under p) ↔ (g.place p).isSome = true := by
  simp only [Fits, Place.under.injEq, forall_eq']
  refine and_iff_left_of_imp fun hp hpx => ?_
  have := isSome_of_reaches hpx hp
  simp [hx] at this

section Put

variable [DecidableEq α]

/-- Where `x` is not met on the way up its place does not matter. -/
theorem stands_update_iff {o : Option (Place γ α)} (hy : ¬ Reaches (nodeAbove place) y x) :
    Stands (Function.update place x o) y c ↔ Stands place y c := by
  have hne : ∀ z, Reaches (nodeAbove place) y z → Function.update place x o z = place z := by
    intro z hz
    have hzx : z ≠ x := by
      rintro rfl
      exact hy hz
    simp [hzx]
  -- the way up is the same, read either way
  have hback : ∀ z, Reaches (nodeAbove (Function.update place x o)) y z →
      Reaches (nodeAbove place) y z := by
    intro z hz
    induction hz with
    | refl => exact .refl
    | tail _ hzw ih =>
        refine ih.tail ?_
        rwa [Points, nodeAbove, hne _ ih] at hzw
  exact ⟨.congr fun z hz => (hne z (hback z hz)).symm, .congr hne⟩

/-- **Plant `x`, or move it** and all that stands under it. -/
def put (g : Grove γ α) (x : α) (t : Place γ α) (h : g.Fits x t) : Grove γ α where
  place := Function.update g.place x (some t)
  stands := by
    have hx : ∃ c, Stands (Function.update g.place x (some t)) x c := by
      cases t with
      | ground c => exact ⟨c, .ground (by simp)⟩
      | under p =>
          obtain ⟨hp, hpx⟩ := h p rfl
          obtain ⟨c, hc⟩ := g.stands p hp
          exact ⟨c, .under (by simp) ((stands_update_iff hpx).2 hc)⟩
    obtain ⟨b, hb⟩ := hx
    intro y hy
    by_cases hyx : y = x
    · exact ⟨b, hyx ▸ hb⟩
    · rw [Function.update_of_ne hyx] at hy
      obtain ⟨c, hc⟩ := g.stands y hy
      by_cases hr : Reaches g.above y x
      · refine ⟨b, ?_⟩
        -- every node on the way to `x` stands where it did
        clear hc hy hyx
        induction hr using ReflTransGen.head_induction_on with
        | refl => exact hb
        | @head y z hyz _ ih =>
            by_cases hyx : y = x
            · exact hyx ▸ hb
            · refine .under ?_ ih
              rw [Function.update_of_ne hyx, nodeAbove_eq_some.1 hyz]
      · exact ⟨c, (stands_update_iff hr).2 hc⟩

@[simp] theorem put_place (h : g.Fits x t) :
    (g.put x t h).place = Function.update g.place x (some t) := rfl

end Put

open Classical in
/-- **Fell `x`** and all that stands under it. -/
noncomputable def fell (g : Grove γ α) (x : α) : Grove γ α where
  place y := if Reaches g.above y x then none else g.place y
  stands y hy := by
    split at hy
    · simp at hy
    · next hyx =>
        obtain ⟨c, hc⟩ := g.stands y hy
        refine ⟨c, hc.congr fun z hz => if_neg fun hzx => hyx (hz.trans hzx)⟩

theorem fell_of_reaches (h : Reaches g.above y x) : (g.fell x).place y = none := if_pos h

theorem fell_of_not_reaches (h : ¬ Reaches g.above y x) : (g.fell x).place y = g.place y := if_neg h

/-! ## The grove as a machine -/

/-- What can be done to a grove. -/
inductive Move (γ α : Type*) where
  | put (x : α) (t : Place γ α)
  | fell (x : α)
  | stay

/-- **A move of the grove.** -/
def Step [DecidableEq α] (g : Grove γ α) : Move γ α → Grove γ α → Prop
  | .put x t, g' => ∃ h : g.Fits x t, g' = g.put x t h
  | .fell x, g' => g' = g.fell x
  | .stay, g' => g' = g

end Grove
