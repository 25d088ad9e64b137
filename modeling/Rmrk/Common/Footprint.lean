import Mathlib.Data.List.Basic
import Rmrk.Common.Run
/-!
# Machines that labels drive

Where the label of a step says what the step does to a part of the state,
that part is the replay of the labels, whatever else a run is about, and a
protocol is a replay that not every label has a part in. Where the label
also says which cells the step reads and writes, the order of the labels
counts at each cell and nowhere else.
-/

variable {σ ℓ V : Type*}

/-- **The replay rule.** What each step changes as its label says, a run
has changed as its labels say. -/
theorem Run.replay {init : σ → Prop} {step : σ → ℓ → σ → Prop} {π : σ → V} {δ : ℓ → V → V} {v : V}
    (hinit : ∀ s, init s → π s = v)
    (hstep : ∀ s l s', Reachable init step s → step s l s' → π s' = δ l (π s))
    {h : List (σ × ℓ)} {s : σ} (hr : Run init step h s) :
    π s = (h.map Prod.snd).foldr δ v := by
  induction hr with
  | start h0 => exact hinit _ h0
  | step hr hs ih => rw [hstep _ _ _ hr.reachable hs, ih]; rfl

/-- **The protocol rule.** A protocol is a machine that does not take every
label in every phase. Where each step is one it takes, it takes the labels
of every run. -/
theorem Run.conforms {init : σ → Prop} {step : σ → ℓ → σ → Prop} {f : σ → V}
    {δ : ℓ → V → Option V} {v : V} (hinit : ∀ s, init s → f s = v)
    (hstep : ∀ s l s', Reachable init step s → step s l s' → δ l (f s) = some (f s'))
    {h : List (σ × ℓ)} {s : σ} (hr : Run init step h s) :
    (h.map Prod.snd).foldrM δ v = some (f s) := by
  induction hr with
  | start h0 => exact congrArg some (hinit _ h0).symm
  | step hr hs ih =>
      rw [List.map_cons, List.foldrM_cons, ih]
      exact hstep _ _ _ hr.reachable hs

/-! ## Cells -/

variable {κ : Type*} {Val : κ → Type*}

/-- **A footprint** of a machine: the cells each label touches. The others
it leaves as they are, and what it makes of those it touches depends on
nothing else. -/
structure Footprint (look : ∀ k, V → Val k) (δ : ℓ → V → V) (touches : ℓ → κ → Prop) : Prop where
  ext : ∀ v w, (∀ k, look k v = look k w) → v = w
  frame : ∀ l k v, ¬ touches l k → look k (δ l v) = look k v
  reads : ∀ l v w, (∀ k, touches l k → look k v = look k w) →
    ∀ k, touches l k → look k (δ l v) = look k (δ l w)

/-- Two labels touch no cell in common. -/
def Independent (touches : ℓ → κ → Prop) (l l' : ℓ) : Prop := ∀ k, touches l k → ¬ touches l' k

open Classical in
/-- The labels that touch a cell. -/
noncomputable def touching (touches : ℓ → κ → Prop) (k : κ) (ls : List ℓ) : List ℓ :=
  ls.filter fun l => touches l k

section Touching

variable {touches : ℓ → κ → Prop} {l l' : ℓ} {k : κ} {ls ls' : List ℓ}

theorem touching_cons_of_pos (h : touches l k) :
    touching touches k (l :: ls) = l :: touching touches k ls := by
  simp [touching, h]

theorem touching_cons_of_neg (h : ¬ touches l k) :
    touching touches k (l :: ls) = touching touches k ls := by
  simp [touching, h]

theorem touching_cons_congr (h : touching touches k ls = touching touches k ls') :
    touching touches k (l :: ls) = touching touches k (l :: ls') := by
  by_cases hl : touches l k
  · rw [touching_cons_of_pos hl, touching_cons_of_pos hl, h]
  · rw [touching_cons_of_neg hl, touching_cons_of_neg hl, h]

theorem touching_append : touching touches k (ls ++ ls') =
    touching touches k ls ++ touching touches k ls' := by
  simp [touching]

theorem touching_eq_nil (h : ∀ l ∈ ls, ¬ touches l k) : touching touches k ls = [] := by
  simpa [touching] using h

/-- **Two neighbours that are independent** can change places unseen. -/
theorem touching_swap (h : Independent touches l l') (k : κ) :
    touching touches k (l :: l' :: ls) = touching touches k (l' :: l :: ls) := by
  by_cases hl : touches l k
  · have hl' := h k hl
    rw [touching_cons_of_pos hl, touching_cons_of_neg hl', touching_cons_of_neg hl',
      touching_cons_of_pos hl]
  · rw [touching_cons_of_neg hl]
    by_cases hl' : touches l' k
    · rw [touching_cons_of_pos hl', touching_cons_of_pos hl', touching_cons_of_neg hl]
    · rw [touching_cons_of_neg hl', touching_cons_of_neg hl', touching_cons_of_neg hl]

end Touching

namespace Footprint

variable {look : ∀ k, V → Val k} {δ : ℓ → V → V} {touches : ℓ → κ → Prop}
variable {l l' : ℓ} {ls ls' : List ℓ} {v : V}

/-- **Independent labels commute.** -/
theorem comm (hf : Footprint look δ touches) (h : Independent touches l l') :
    δ l (δ l' v) = δ l' (δ l v) := by
  refine hf.ext _ _ fun k => ?_
  by_cases hl : touches l k
  · -- the cell is the first label's, which reads nothing of the second's
    have hagree : ∀ k, touches l k → look k (δ l' v) = look k v := fun k hk =>
      hf.frame l' k v (h k hk)
    rw [hf.reads l _ _ hagree k hl, hf.frame l' k _ (h k hl)]
  · rw [hf.frame l k _ hl]
    by_cases hl' : touches l' k
    · have hagree : ∀ k, touches l' k → look k (δ l v) = look k v := fun k hk =>
        hf.frame l k v fun hlk => h k hlk hk
      rw [hf.reads l' _ _ hagree k hl']
    · rw [hf.frame l' k _ hl', hf.frame l' k _ hl', hf.frame l k _ hl]

/-- A label that is independent of all after it might as well have come
last. -/
theorem foldr_pull (hf : Footprint look δ touches) (h : ∀ l' ∈ ls, Independent touches l l') :
    (ls ++ l :: ls').foldr δ v = δ l ((ls ++ ls').foldr δ v) := by
  induction ls with
  | nil => rfl
  | cons l' ls ih =>
      rw [List.forall_mem_cons] at h
      simp only [List.cons_append, List.foldr_cons] at ih ⊢
      rw [ih h.2, hf.comm h.1]

/-- A label that touches nothing does nothing. -/
theorem eq_of_untouched (hf : Footprint look δ touches) (h : ∀ k, ¬ touches l k) : δ l v = v :=
  hf.ext _ _ fun k => hf.frame l k v (h k)

/-- **Only the order at each cell counts.** Where each cell has seen the
same labels in the same order, two replays come to the same. -/
theorem foldr_eq (hf : Footprint look δ touches)
    (h : ∀ k, touching touches k ls = touching touches k ls') :
    ls.foldr δ v = ls'.foldr δ v := by
  induction ls generalizing ls' with
  | nil =>
      induction ls' with
      | nil => rfl
      | cons l ls' ih =>
          have hl : ∀ k, ¬ touches l k := fun k hl => by
            have hnil := h k
            rw [touching_cons_of_pos hl] at hnil
            cases hnil
          rw [List.foldr_cons, hf.eq_of_untouched hl, ← ih]
          intro k
          rw [h k, touching_cons_of_neg (hl k)]
  | cons l ls ih =>
      by_cases hl : ∃ k, touches l k
      · obtain ⟨k, hk⟩ := hl
        have hmem : l ∈ ls' := by
          have hmem : l ∈ touching touches k ls' := by
            rw [← h k, touching_cons_of_pos hk]
            exact List.mem_cons_self
          exact (List.mem_filter.1 hmem).1
        -- the first time the other list comes to the label, nothing before it shares a cell
        obtain ⟨xs, ys, rfl, hxs⟩ := List.eq_append_cons_of_mem hmem
        have hfree : ∀ k, touches l k → ∀ l' ∈ xs, ¬ touches l' k := by
          intro k hk
          have heq := h k
          rw [touching_cons_of_pos hk, touching_append] at heq
          cases htouch : touching touches k xs with
          | nil =>
              intro l' hl' ht
              have hin : l' ∈ touching touches k xs := List.mem_filter.2 ⟨hl', by simpa using ht⟩
              rw [htouch] at hin
              cases hin
          | cons l'' zs =>
              rw [htouch, List.cons_append, List.cons.injEq] at heq
              have hin : l'' ∈ touching touches k xs := by rw [htouch]; exact List.mem_cons_self
              exact absurd (heq.1 ▸ (List.mem_filter.1 hin).1) hxs
        rw [List.foldr_cons, hf.foldr_pull fun l' hl' k hk => hfree k hk l' hl', ih fun k => ?_]
        have heq := h k
        by_cases hk : touches l k
        · have hnil : touching touches k xs = [] := touching_eq_nil (hfree k hk)
          rw [touching_cons_of_pos hk, touching_append, touching_cons_of_pos hk, hnil,
            List.nil_append, List.cons.injEq] at heq
          rw [touching_append, hnil, heq.2]
          rfl
        · rw [touching_cons_of_neg hk, touching_append, touching_cons_of_neg hk] at heq
          rw [touching_append, heq]
      · rw [not_exists] at hl
        rw [List.foldr_cons, hf.eq_of_untouched hl]
        exact ih fun k => by rw [← h k, touching_cons_of_neg (hl k)]

/-- **The last label that touched a cell** decides what it holds: what a
run has come to there is what that step made of it. -/
theorem last_touch {init : σ → Prop} {step : σ → ℓ → σ → Prop} {π : σ → V}
    (hf : Footprint look δ touches) (hinit : ∀ s, init s → π s = v)
    (hstep : ∀ s l s', Run.Reachable init step s → step s l s' → π s' = δ l (π s))
    {h : List (σ × ℓ)} {s : σ} (hr : Run init step h s) (k : κ) :
    look k (π s) = look k v ∨ ∃ newer s₁ l older s₂, h = newer ++ (s₁, l) :: older ∧
      (∀ e ∈ newer, ¬ touches e.2 k) ∧ touches l k ∧ Run init step older s₁ ∧ step s₁ l s₂ ∧
        look k (π s) = look k (π s₂) := by
  induction hr with
  | start h0 => exact .inl (by rw [hinit _ h0])
  | @step h s s' l hr hs ih =>
      by_cases hl : touches l k
      · exact .inr ⟨[], s, l, h, s', rfl, by simp, hl, hr, hs, rfl⟩
      · have hsame : look k (π s') = look k (π s) := by
          rw [hstep _ _ _ hr.reachable hs, hf.frame l k _ hl]
        rw [hsame]
        rcases ih with hv | ⟨newer, s₁, l₁, older, s₂, rfl, hnewer, hrest⟩
        · exact .inl hv
        · exact .inr ⟨(s, l) :: newer, s₁, l₁, older, s₂, rfl,
            List.forall_mem_cons.2 ⟨hl, hnewer⟩, hrest⟩

end Footprint
