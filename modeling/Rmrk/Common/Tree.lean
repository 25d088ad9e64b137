import Mathlib.Data.Fintype.Card
import Mathlib.Logic.Relation
import Mathlib.Order.Lattice.Nat
/-!
# Trees in a graph

The part of a directed graph that is reached from a node is a tree if each
node reached has one edge in from what is reached, and the first has none.
A walk that goes down every edge of a tree comes to each node once: the
subtrees of two children have nothing in common.

How deep a graph is below a node is the number of nodes on a longest walk
from there, which recursion with a budget finds out one edge at a time.

A node that is moved has edges into it cut and one put in: the walks that
come to be go by the new edge, and those that are lost came to the node.
-/

open Relation

variable {α : Type*} {R R' : α → α → Prop} {x y y' z : α}

/-- **What `R` reaches from `x` is a tree.** -/
structure TreeAt (R : α → α → Prop) (x : α) : Prop where
  unique : ∀ a b y, ReflTransGen R x a → ReflTransGen R x b → R a y → R b y → a = b
  root : ∀ a, ReflTransGen R x a → ¬ R a x

/-- A leaf reaches itself only. -/
theorem reaches_of_leaf (h : ∀ y, ¬ R x y) (hy : ReflTransGen R x y) : y = x := by
  rcases ReflTransGen.cases_head hy with rfl | ⟨b, hb, -⟩
  · rfl
  · exact absurd hb (h b)

/-- A node with an only child reaches itself and what the child does. -/
theorem reaches_of_only (h : ∀ b, R x b → b = y) (hz : ReflTransGen R x z) :
    z = x ∨ ReflTransGen R y z := by
  rcases ReflTransGen.cases_head hz with rfl | ⟨b, hb, hbz⟩
  · exact .inl rfl
  · exact .inr (h b hb ▸ hbz)

namespace TreeAt

/-- A leaf is a tree. -/
theorem of_leaf (h : ∀ y, ¬ R x y) : TreeAt R x where
  unique _ _ _ ha hb _ _ := (reaches_of_leaf h ha).trans (reaches_of_leaf h hb).symm
  root _ ha hax := h x (reaches_of_leaf h ha ▸ hax)

/-- A part of a tree is one. -/
theorem anti (h : TreeAt R x) (hR : ∀ a b, R' a b → R a b) : TreeAt R' x where
  unique a b y ha hb hay hby :=
    h.unique a b y (ReflTransGen.mono hR _ _ ha) (ReflTransGen.mono hR _ _ hb) (hR a y hay)
      (hR b y hby)
  root a ha hax := h.root a (ReflTransGen.mono hR _ _ ha) (hR a x hax)

/-- **A tree under an only child** makes one, where there is no way back. -/
theorem of_only (h : ∀ b, R x b → b = y) (hy : TreeAt R y) (hx : ¬ ReflTransGen R y x) :
    TreeAt R x where
  unique a b z ha hb haz hbz := by
    rcases reaches_of_only h ha with rfl | ha'
    · obtain rfl := h z haz
      rcases reaches_of_only h hb with rfl | hb'
      · rfl
      · exact absurd hbz (hy.root b hb')
    · rcases reaches_of_only h hb with rfl | hb'
      · obtain rfl := h z hbz
        exact absurd haz (hy.root a ha')
      · exact hy.unique a b z ha' hb' haz hbz
  root a ha hax := by
    rcases reaches_of_only h ha with rfl | ha'
    · exact hx (h a hax ▸ .refl)
    · exact hx (ha'.tail hax)

/-- There is no way back to the root. -/
theorem not_reaches (h : TreeAt R x) (hy : R x y) : ¬ ReflTransGen R y x := by
  intro hyx
  rcases ReflTransGen.cases_tail hyx with rfl | ⟨b, hyb, hbx⟩
  · exact h.root x .refl hy
  · exact h.root b (.head hy hyb) hbx

/-- What is reached from a child is a tree. -/
theorem child (h : TreeAt R x) (hy : R x y) : TreeAt R y where
  unique a b z ha hb := h.unique a b z (.head hy ha) (.head hy hb)
  root a ha hay := by
    obtain rfl : a = x := h.unique a x y (.head hy ha) .refl hay hy
    exact h.not_reaches hy ha

/-- **The subtrees of two children have nothing in common.** -/
theorem disjoint (h : TreeAt R x) (hy : R x y) (hy' : R x y') (hz : ReflTransGen R y z)
    (hz' : ReflTransGen R y' z) : y = y' := by
  induction hz with
  | refl =>
      rcases ReflTransGen.cases_tail hz' with rfl | ⟨b, hb, hby⟩
      · rfl
      · obtain rfl : b = x := h.unique b x y (.head hy' hb) .refl hby hy
        exact absurd hb (h.not_reaches hy')
  | @tail b c hyb hbc ih =>
      rcases ReflTransGen.cases_tail hz' with rfl | ⟨b', hb', hbc'⟩
      · obtain rfl : b = x := h.unique b x c (.head hy hyb) .refl hbc hy'
        exact absurd hyb (h.not_reaches hy)
      · obtain rfl : b = b' := h.unique b b' c (.head hy hyb) (.head hy' hb') hbc hbc'
        exact ih hb'

end TreeAt

/-! ## A node that is moved -/

/-- **A walk after an edge has been put in** is one from before, or goes by
the edge. -/
theorem reaches_of_put {p : α} (h : ∀ a b, R' a b → R a b ∨ a = p ∧ b = x)
    (hy : ReflTransGen R' z y) :
    ReflTransGen R z y ∨ ReflTransGen R z p ∧ ReflTransGen R x y := by
  induction hy with
  | refl => exact .inl .refl
  | tail _ hbc ih =>
      rcases h _ _ hbc with hbc | ⟨rfl, rfl⟩
      · rcases ih with hzb | ⟨hzp, hxb⟩
        · exact .inl (hzb.tail hbc)
        · exact .inr ⟨hzp, hxb.tail hbc⟩
      · rcases ih with hzp | ⟨hzp, -⟩
        · exact .inr ⟨hzp, .refl⟩
        · exact .inr ⟨hzp, .refl⟩

/-- **Where edges into `x` are cut** no walk is lost from `x` itself, nor
from where `x` is not reached. -/
theorem reaches_of_cut (h : ∀ a b, R a b → b ≠ x → R' a b) (hz : z = x ∨ ¬ ReflTransGen R z x)
    (hy : ReflTransGen R z y) : ReflTransGen R' z y := by
  induction hy with
  | refl => exact .refl
  | @tail b c hzb hbc ih =>
      by_cases hc : c = x
      · rcases hz with rfl | hz
        · exact hc ▸ .refl
        · exact absurd (hc ▸ hzb.tail hbc) hz
      · exact ih.tail (h b c hbc hc)

/-! ## Depth -/

variable {k : ℕ}

/-- **No walk from `x` meets more than `k` nodes.** -/
def Shallow (R : α → α → Prop) : ℕ → α → Prop
  | 0, _ => False
  | k + 1, x => ∀ y, R x y → Shallow R k y

theorem shallow_iff : Shallow R k x ↔ ∀ l, List.IsChain R (x :: l) → (x :: l).length ≤ k := by
  induction k generalizing x with
  | zero => exact iff_of_false id fun h => by simpa using h [] (.singleton x)
  | succ k ih =>
      constructor
      · intro h l hl
        cases l with
        | nil => simp
        | cons y l =>
            obtain ⟨hxy, hl⟩ := List.isChain_cons_cons.1 hl
            exact Nat.succ_le_succ (ih.1 (h y hxy) l hl)
      · intro h y hxy
        refine ih.2 fun l hl => ?_
        exact Nat.le_of_succ_le_succ (h (y :: l) (List.isChain_cons_cons.2 ⟨hxy, hl⟩))

/-- Depth is a matter of what is reached. -/
theorem Shallow.congr (h : ∀ a b, ReflTransGen R x a → (R' a b ↔ R a b)) :
    Shallow R' k x ↔ Shallow R k x := by
  induction k generalizing x with
  | zero => exact Iff.rfl
  | succ k ih =>
      refine forall_congr' fun y => ?_
      rw [h x y .refl]
      refine imp_congr_right fun hxy => ?_
      exact ih fun a b ha => h a b (.head hxy ha)

/-- **How deep `R` goes below `x`**: the number of nodes on a longest walk
from there. -/
noncomputable def height (R : α → α → Prop) (x : α) : ℕ :=
  sSup {n | ∃ l, List.IsChain R (x :: l) ∧ n = (x :: l).length}

/-- Where there is no way back no walk meets a node twice. -/
theorem nodup_of_isChain (h : ∀ y, ¬ TransGen R y y) {l : List α} (hl : List.IsChain R l) :
    l.Nodup := by
  have hpair : l.Pairwise (TransGen R) := (hl.imp fun _ _ => TransGen.single).pairwise
  refine hpair.imp fun {a b} hab => ?_
  rintro rfl
  exact h a hab

/-- **On finitely many nodes with no way back a budget is enough exactly
if it is at least the height.** -/
theorem height_le_iff [Fintype α] (h : ∀ y, ¬ TransGen R y y) : height R x ≤ k ↔ Shallow R k x := by
  rw [shallow_iff, height, csSup_le_iff]
  · simp only [Set.mem_ofPred_eq, forall_exists_index, and_imp]
    exact ⟨fun h l hl => h _ l hl rfl, fun h n l hl hn => hn ▸ h l hl⟩
  · refine ⟨Fintype.card α, ?_⟩
    rintro n ⟨l, hl, rfl⟩
    exact (nodup_of_isChain h hl).length_le_card
  · exact ⟨1, [], .singleton x, rfl⟩
