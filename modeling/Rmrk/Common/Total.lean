import Mathlib.Algebra.BigOperators.Group.Finset.Piecewise
import Mathlib.Data.Fintype.Basic
import Rmrk.Common.StorageMap
/-!
# Sums over a storage map

What the entries of a map come to, each measured by a function of its
value. An entry put in adds its measure, and an entry taken out takes its
measure with it. A sum of what many have is the same after one has given
another of it.
-/

namespace StorageMap

variable {K V : Type} [Fintype K] [DecidableEq K] {m : StorageMap K V} {k : K} {v : V} {f : V → ℕ}

/-- **The sum of `f` over the entries of a map.** -/
def total (m : StorageMap K V) (f : V → ℕ) : ℕ := ∑ k, ((m k).map f).getD 0

omit [DecidableEq K] in
theorem total_empty : total (fun _ : K => (none : Option V)) f = 0 :=
  Finset.sum_eq_zero fun _ _ => rfl

/-- The sum over a map with one key written. -/
theorem total_update (o : Option V) :
    total (Function.update m k o) f + ((m k).map f).getD 0 =
      total m f + (o.map f).getD 0 := by
  unfold total
  have hrest : ∑ q ∈ Finset.univ.erase k, ((Function.update m k o q).map f).getD 0 =
      ∑ q ∈ Finset.univ.erase k, ((m q).map f).getD 0 :=
    Finset.sum_congr rfl fun q hq => by rw [Function.update_of_ne (Finset.ne_of_mem_erase hq)]
  rw [← Finset.add_sum_erase _ _ (Finset.mem_univ k), hrest, Function.update_self,
    ← Finset.add_sum_erase _ (fun q => ((m q).map f).getD 0) (Finset.mem_univ k)]
  omega

theorem total_insert (h : m k = none) : total (m.insert k v) f = total m f + f v := by
  have hsum := total_update (m := m) (k := k) (f := f) (some v)
  rw [h] at hsum
  exact hsum

theorem total_remove (h : m k = some v) : total (m.remove k) f + f v = total m f := by
  have hsum := total_update (m := m) (k := k) (f := f) none
  rw [h] at hsum
  exact hsum

/-- One entry is at most the sum. -/
theorem le_total (h : m k = some v) : f v ≤ total m f := by
  have hsum := total_remove (f := f) h
  omega

end StorageMap

/-- **What one gives another** is in the sum before and after. -/
theorem Finset.sum_eq_of_transfer {K : Type} [Fintype K] [DecidableEq K] {f g : K → ℕ} {a b : K}
    {p : ℕ} (hgiven : g b + p = f b) (htaken : g a = f a + p)
    (hothers : ∀ c, c ≠ a → c ≠ b → g c = f c) : ∑ c, g c = ∑ c, f c := by
  have hpoint : ∀ c, g c + (if c = b then p else 0) = f c + if c = a then p else 0 := by
    intro c
    by_cases ha : c = a
    · subst ha
      by_cases hb : c = b
      · subst hb
        rw [if_pos rfl]
        omega
      · rw [if_neg hb, if_pos rfl]
        omega
    · by_cases hb : c = b
      · subst hb
        rw [if_pos rfl, if_neg ha]
        omega
      · rw [if_neg ha, if_neg hb, hothers c ha hb]
  have hsum := Finset.sum_congr rfl fun c (_ : c ∈ Finset.univ) => hpoint c
  simp only [Finset.sum_add_distrib, Finset.sum_ite_eq', Finset.mem_univ, if_true] at hsum
  exact Nat.add_right_cancel hsum
