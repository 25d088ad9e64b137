import Mathlib.Data.Fintype.Card
import Mathlib.Data.Fintype.Option
import Mathlib.Logic.Relation
/-!
# Parent pointers

A partial function `f : α → Option α` read as a pointer from each node to
its parent, and what becomes of its cycles when one pointer is written.
-/

namespace Pointer

open Relation

variable {α : Type*} {f : α → Option α} {a b c p x : α}

/-- One step up. -/
def Points (f : α → Option α) (a b : α) : Prop := f a = some b

/-- **`b` is met on the way up from `a`**, which counts as met itself. -/
abbrev Reaches (f : α → Option α) : α → α → Prop := ReflTransGen (Points f)

/-- No node is above itself. -/
def Acyclic (f : α → Option α) : Prop := ∀ a, ¬ TransGen (Points f) a a

theorem Acyclic.anti {g : α → Option α} (hg : ∀ a b, g a = some b → f a = some b)
    (h : Acyclic f) : Acyclic g :=
  fun a ha => h a (TransGen.mono (fun a b => hg a b) _ _ ha)

/-- Where every step goes down a rank, none leads back. -/
theorem Acyclic.of_rank (r : α → ℕ) (h : ∀ a b, f a = some b → r b < r a) : Acyclic f := by
  intro a ha
  have hlt : ∀ b, TransGen (Points f) a b → r b < r a := by
    intro b hab
    induction hab with
    | single hab => exact h _ _ hab
    | tail _ hbc ih => exact (h _ _ hbc).trans ih
  exact (hlt a ha).false

/-- Of two nodes met on the way up the one is met from the other. -/
theorem reaches_total (hb : Reaches f a b) (hc : Reaches f a c) :
    Reaches f b c ∨ Reaches f c b := by
  refine ReflTransGen.total_of_right_unique (fun x y z hy hz => ?_) hb hc
  exact Option.some.inj (hy.symm.trans hz)

/-- **From a cycle there is no way off it.** -/
theorem reaches_back (h : TransGen (Points f) a a) (hb : Reaches f a b) :
    TransGen (Points f) b a := by
  induction hb with
  | refl => exact h
  | @tail b c _ hbc ih =>
      obtain ⟨d, hbd, hda⟩ := TransGen.head'_iff.1 ih
      obtain rfl : d = c := Option.some.inj (hbd.symm.trans hbc)
      exact TransGen.trans_right hda h

section Update

variable [DecidableEq α] {o : Option α}

/-- **Writing `x`'s pointer changes no way up that does not come to `x`.** -/
theorem reaches_update_of_not (ha : ¬ Reaches f a x) :
    Reaches (Function.update f x o) a b ↔ Reaches f a b := by
  constructor <;> intro h
  · induction h with
    | refl => exact .refl
    | @tail b c _ hbc ih =>
        have hb : b ≠ x := fun hb => ha (hb ▸ ih)
        exact ih.tail (by simpa [Points, Function.update_of_ne hb] using hbc)
  · induction h with
    | refl => exact .refl
    | @tail b c hab hbc ih =>
        have hb : b ≠ x := fun hb => ha (hb ▸ hab)
        exact ih.tail (by simpa [Points, Function.update_of_ne hb] using hbc)

/-- **Writing `x`'s pointer changes no way up to `x`.** -/
theorem reaches_update_self : Reaches (Function.update f x o) a x ↔ Reaches f a x := by
  constructor <;> intro h
  all_goals
    induction h using ReflTransGen.head_induction_on with
    | refl => exact .refl
    | @head b c hbc _ ih =>
        by_cases hb : b = x
        · rw [hb]
        · refine .head ?_ ih
          simpa [Points, Function.update_of_ne hb] using hbc

/-- A way up after the write is one from before, or goes by `x`. -/
theorem transGen_update (h : TransGen (Points (Function.update f x o)) a b) :
    TransGen (Points f) a b ∨
      Reaches f a x ∧ ∃ p, o = some p ∧ Reaches (Function.update f x o) p b := by
  induction h with
  | @single b hab =>
      by_cases ha : a = x
      · subst ha
        simp only [Points, Function.update_self] at hab
        exact .inr ⟨.refl, b, hab, .refl⟩
      · exact .inl (.single (by simpa [Points, Function.update_of_ne ha] using hab))
  | @tail b c _ hbc ih =>
      rcases ih with h | ⟨hax, p, hp, hpb⟩
      · by_cases hb : b = x
        · subst hb
          simp only [Points, Function.update_self] at hbc
          exact .inr ⟨h.to_reflTransGen, c, hbc, .refl⟩
        · exact .inl (h.tail (by simpa [Points, Function.update_of_ne hb] using hbc))
      · exact .inr ⟨hax, p, hp, hpb.tail hbc⟩

/-- **When a write closes a cycle**: exactly when the node written is met
on the way up from its new parent. -/
theorem acyclic_update_iff (hf : Acyclic f) :
    Acyclic (Function.update f x o) ↔ ∀ p, o = some p → ¬ Reaches f p x := by
  constructor
  · rintro h p rfl hpx
    refine h x (.head' (b := p) (by simp [Points]) ?_)
    exact reaches_update_self.2 hpx
  · intro h a ha
    rcases transGen_update ha with hcyc | ⟨hax, p, hp, hpa⟩
    · exact hf a hcyc
    · exact h p hp (reaches_update_self.1 (hpa.trans (reaches_update_self.2 hax)))

end Update

/-- **On finitely many nodes, no cycle means every way up ends.** -/
theorem Acyclic.wellFounded [Finite α] (h : Acyclic f) :
    WellFounded (fun a b => Points f b a) := by
  have hirr : Std.Irrefl (TransGen (Points f)) := ⟨h⟩
  have hwf : WellFounded (Function.swap (TransGen (Points f))) :=
    Finite.wellFounded_of_trans_of_irrefl _
  exact Subrelation.wf (fun hab => TransGen.single hab) hwf

end Pointer
