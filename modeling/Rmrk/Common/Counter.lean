import Mathlib.Data.List.Pairwise
import Mathlib.Order.Nat
/-!
# Counters that hand out numbers

Numbers are handed out in scopes, each of which has a counter of its own:
what is handed out is at least what the counter of its scope stood at, and
below what it comes to. So the numbers of one scope only go up, over any
number of calls in a row.
-/

namespace Counter

/-! ## The next number up -/

/-- The next number is the next one up: there is one left. -/
theorem toNat_succ {n : UInt32} (h : n ≠ 4294967295) : (n + 1).toNat = n.toNat + 1 := by
  have hlt := n.toNat_lt
  have hne : n.toNat ≠ 4294967295 := fun h' => h (UInt32.toNat_inj.1 h')
  rw [UInt32.toNat_add]
  change (n.toNat + 1) % 4294967296 = _
  omega

theorem toNat_succ_of_room {n : UInt32} (h : n.toNat + 1 < UInt32.size) :
    (n + 1).toNat = n.toNat + 1 := by
  refine toNat_succ fun h' => ?_
  rw [h'] at h
  exact absurd h (by decide)

/-- A number that is not past the next one is not the next one. -/
theorem lt_of_succ_le {n m : UInt32} (hroom : n.toNat + 1 < UInt32.size) (h : n + 1 ≤ m) :
    n < m := by
  rw [UInt32.le_iff_toNat_le, toNat_succ_of_room hroom] at h
  exact UInt32.lt_iff_toNat_lt.2 h

/-! ## Numbers in scopes -/

variable {ε κ : Type*} {scope : ε → κ} {number : ε → ℕ} {c c' c'' : κ → ℕ} {e : ε} {l l' : List ε}

/-- **The events of `l` are numbered in turn**, in the order they are in,
while the counters go from `c` to `c'`. -/
structure Numbers (scope : ε → κ) (number : ε → ℕ) (c c' : κ → ℕ) (l : List ε) : Prop where
  mono : ∀ k, c k ≤ c' k
  low : ∀ e ∈ l, c (scope e) ≤ number e
  high : ∀ e ∈ l, number e < c' (scope e)
  increasing : l.Pairwise fun e e' => scope e = scope e' → number e < number e'

namespace Numbers

theorem nil (h : ∀ k, c k ≤ c' k) : Numbers scope number c c' [] :=
  ⟨h, by simp, by simp, .nil⟩

/-- One event takes the next number of its scope. -/
theorem one (h : ∀ k, c k ≤ c' k) (hnumber : number e = c (scope e))
    (hnext : c (scope e) < c' (scope e)) : Numbers scope number c c' [e] where
  mono := h
  low e' he' := by rw [List.mem_singleton.1 he', hnumber]
  high e' he' := by rw [List.mem_singleton.1 he', hnumber]; exact hnext
  increasing := List.pairwise_singleton _ _

/-- **Events numbered one after the other** are numbered in turn. -/
theorem append (h : Numbers scope number c c' l) (h' : Numbers scope number c' c'' l') :
    Numbers scope number c c'' (l ++ l') where
  mono k := (h.mono k).trans (h'.mono k)
  low e he := (List.mem_append.1 he).elim (h.low e) fun he => (h.mono _).trans (h'.low e he)
  high e he :=
    (List.mem_append.1 he).elim (fun he => (h.high e he).trans_le (h'.mono _)) (h'.high e)
  increasing := by
    refine List.pairwise_append.2 ⟨h.increasing, h'.increasing, fun e he e' he' hscope => ?_⟩
    calc number e < c' (scope e) := h.high e he
      _ = c' (scope e') := by rw [hscope]
      _ ≤ number e' := h'.low e' he'

end Numbers

end Counter
