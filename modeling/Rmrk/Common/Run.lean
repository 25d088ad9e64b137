import Mathlib.Data.List.Basic
/-!
# Runs of a labelled transition system

A run is its history, the latest step first, and the state it has come
to. Each entry of the history is the state a step was taken in and the
step's label, so what held before each step can be read off it.
-/

variable {σ ℓ : Type*}

/-- **A run** from an initial state: its history, and where it has come
to. -/
inductive Run (init : σ → Prop) (step : σ → ℓ → σ → Prop) : List (σ × ℓ) → σ → Prop
  | start {s : σ} : init s → Run init step [] s
  | step {h : List (σ × ℓ)} {s s' : σ} {l : ℓ} :
      Run init step h s → step s l s' → Run init step ((s, l) :: h) s'

namespace Run

variable {init : σ → Prop} {step : σ → ℓ → σ → Prop}
variable {h : List (σ × ℓ)} {s s' : σ} {l : ℓ}

/-- Some run comes to `s`. -/
def Reachable (init : σ → Prop) (step : σ → ℓ → σ → Prop) (s : σ) : Prop :=
  ∃ h, Run init step h s

theorem reachable (hr : Run init step h s) : Reachable init step s := ⟨h, hr⟩

theorem Reachable.next (hr : Reachable init step s) (hs : step s l s') : Reachable init step s' :=
  hr.elim fun _ hr => (hr.step hs).reachable

/-- **The invariant rule.** -/
theorem Reachable.invariant {P : σ → Prop} (hinit : ∀ s, init s → P s)
    (hstep : ∀ s l s', Reachable init step s → P s → step s l s' → P s')
    (hr : Reachable init step s) : P s := by
  obtain ⟨h, hr⟩ := hr
  induction hr with
  | start h0 => exact hinit _ h0
  | step hr hs ih => exact hstep _ _ _ hr.reachable ih hs

/-- `P` holds in every state of the run. -/
def Throughout (P : σ → Prop) (h : List (σ × ℓ)) (s : σ) : Prop :=
  P s ∧ ∀ e ∈ h, P e.1

/-- `C` holds of every step of the run, given the run before it. -/
def Meets (C : List (σ × ℓ) → σ → ℓ → Prop) : List (σ × ℓ) → Prop
  | [] => True
  | (s, l) :: h => C h s l ∧ Meets C h

/-- Some step of the run was an `E`. -/
def Past (E : σ → ℓ → Prop) (h : List (σ × ℓ)) : Prop := ∃ e ∈ h, E e.1 e.2

theorem past_cons {E : σ → ℓ → Prop} : Past E ((s, l) :: h) ↔ E s l ∨ Past E h := by
  simp [Past]

/-- What follows from a property in reachable states follows from it
throughout a run. -/
theorem Throughout.imp {P Q : σ → Prop} (hPQ : ∀ s, Reachable init step s → P s → Q s)
    (hr : Run init step h s) (hP : Throughout P h s) : Throughout Q h s := by
  induction hr with
  | start h0 => exact ⟨hPQ _ (Run.start h0).reachable hP.1, by simp⟩
  | step hr hs ih =>
      obtain ⟨hP', hh⟩ := hP
      rw [List.forall_mem_cons] at hh
      obtain ⟨hQ, hQh⟩ := ih hh
      exact ⟨hPQ _ (hr.step hs).reachable hP', List.forall_mem_cons.2 ⟨hQ, hQh⟩⟩

theorem meets_iff {C : σ → ℓ → Prop} :
    Meets (fun _ => C) h ↔ ∀ e ∈ h, C e.1 e.2 := by
  induction h with
  | nil => simp [Meets]
  | cons e h ih => simp [Meets, ih]

/-- **The conditional invariant rule**, for an invariant of the state and
its history: what every step meeting the condition preserves holds at the
end of every run whose steps all meet it. -/
theorem invariant_of_meets {C : List (σ × ℓ) → σ → ℓ → Prop} {P : List (σ × ℓ) → σ → Prop}
    (hinit : ∀ s, init s → P [] s)
    (hstep : ∀ h s l s', Run init step h s → P h s → C h s l → step s l s' →
      P ((s, l) :: h) s')
    (hr : Run init step h s) (hm : Meets C h) : P h s := by
  induction hr with
  | start h0 => exact hinit _ h0
  | step hr hs ih => exact hstep _ _ _ _ hr (ih hm.2) hm.1 hs

/-- **The exact rule, with an invariant at its side.** Where the condition
is exactly what a step needs to keep the property, and a second one holds
as long as the property does, a run keeps the property throughout if and
only if all its steps meet the condition. -/
theorem throughout_iff_of {P Q : σ → Prop} {C : σ → ℓ → Prop} (hinit : ∀ s, init s → P s ∧ Q s)
    (hstep : ∀ s l s', Reachable init step s → P s → Q s → step s l s' →
      (P s' ↔ C s l) ∧ (P s' → Q s'))
    (hr : Run init step h s) : Throughout P h s ↔ ∀ e ∈ h, C e.1 e.2 := by
  -- the second property is carried along from left to right as well
  suffices hall : (Throughout P h s ↔ ∀ e ∈ h, C e.1 e.2) ∧ (Throughout P h s → Q s) from hall.1
  induction hr with
  | start h0 => exact ⟨by simp [Throughout, (hinit _ h0).1], fun _ => (hinit _ h0).2⟩
  | @step h s s' l hr hs ih =>
      simp only [Throughout, List.mem_cons, forall_eq_or_imp] at ih ⊢
      refine ⟨⟨?_, ?_⟩, ?_⟩
      · rintro ⟨hs', hP, hh⟩
        exact ⟨(hstep s l s' hr.reachable hP (ih.2 ⟨hP, hh⟩) hs).1.1 hs', ih.1.1 ⟨hP, hh⟩⟩
      · rintro ⟨hC, hh⟩
        obtain ⟨hP, hh'⟩ := ih.1.2 hh
        exact ⟨(hstep s l s' hr.reachable hP (ih.2 ⟨hP, hh'⟩) hs).1.2 hC, hP, hh'⟩
      · rintro ⟨hs', hP, hh⟩
        exact (hstep s l s' hr.reachable hP (ih.2 ⟨hP, hh⟩) hs).2 hs'

/-- **The exact rule.** Where the condition is exactly what a step needs
to keep the property, a run keeps it throughout if and only if all its
steps meet the condition. -/
theorem throughout_iff {P : σ → Prop} {C : σ → ℓ → Prop} (hinit : ∀ s, init s → P s)
    (hstep : ∀ s l s', Reachable init step s → P s → step s l s' → (P s' ↔ C s l))
    (hr : Run init step h s) : Throughout P h s ↔ ∀ e ∈ h, C e.1 e.2 :=
  throughout_iff_of (Q := fun _ => True) (fun s h0 => ⟨hinit s h0, trivial⟩)
    (fun s l s' hreach hP _ hs => ⟨hstep s l s' hreach hP hs, fun _ => trivial⟩) hr

/-- **The refinement rule.** Where a step is matched by a move of a second
system exactly if it meets the condition, a run is matched, state by state
and step by step, by a run of the second system if and only if all its
steps meet the condition. -/
theorem matched_iff {τ μ : Type*} {init' : τ → Prop} {move : τ → μ → τ → Prop}
    {R : σ → τ → Prop} {f : σ → ℓ → μ} {C : σ → ℓ → Prop}
    (hinit : ∀ s, init s → ∃ t, init' t ∧ R s t)
    (hstep : ∀ s l s' t, Reachable init step s → step s l s' → R s t →
      ((∃ t', move t (f s l) t' ∧ R s' t') ↔ C s l))
    (hr : Run init step h s) :
    (∃ k t, Run init' move k t ∧ R s t ∧
      List.Forall₂ (fun e e' => R e.1 e'.1 ∧ e'.2 = f e.1 e.2) h k) ↔ ∀ e ∈ h, C e.1 e.2 := by
  induction hr with
  | start h0 =>
      obtain ⟨t, ht, hR⟩ := hinit _ h0
      exact iff_of_true ⟨[], t, .start ht, hR, .nil⟩ (by simp)
  | @step h s s' l hr hs ih =>
      rw [List.forall_mem_cons, ← ih]
      constructor
      · rintro ⟨_, t', hk, hR', hcons⟩
        cases hcons with
        | @cons _ e _ k hhead htail =>
            obtain ⟨hR, hf⟩ := hhead
            cases hk with
            | step hk hmove =>
                exact ⟨(hstep s l s' _ hr.reachable hs hR).1 ⟨t', hf ▸ hmove, hR'⟩, k, _, hk, hR,
                  htail⟩
      · rintro ⟨hC, k, t, hk, hR, hall⟩
        obtain ⟨t', hmove, hR'⟩ := (hstep s l s' t hr.reachable hs hR).2 hC
        exact ⟨_, t', hk.step hmove, hR', .cons ⟨hR, rfl⟩ hall⟩

/-- **The two-state rule.** What every step relates its states by relates
every state of a run to the end of it. -/
theorem to_end {R : σ → σ → Prop} (htrans : ∀ s t u, R s t → R t u → R s u)
    (hstep : ∀ s l s', Reachable init step s → step s l s' → R s s') (hr : Run init step h s) :
    ∀ e ∈ h, R e.1 s := by
  induction hr with
  | start => simp
  | @step h s s' l hr hs ih =>
      have hlast := hstep s l s' hr.reachable hs
      rw [List.forall_mem_cons]
      exact ⟨hlast, fun e he => htrans _ _ _ (ih e he) hlast⟩

/-- **The conservation rule.** What every step keeps, whichever value it
has, a run keeps throughout at the value it starts with. -/
theorem exists_throughout {κ : Type*} {P : κ → σ → Prop} (hinit : ∀ s, init s → ∃ k, P k s)
    (hstep : ∀ k s l s', Reachable init step s → P k s → step s l s' → P k s')
    (hr : Run init step h s) : ∃ k, Throughout (P k) h s := by
  induction hr with
  | start h0 =>
      obtain ⟨k, hk⟩ := hinit _ h0
      exact ⟨k, hk, by simp⟩
  | @step h s s' l hr hs ih =>
      obtain ⟨k, hlast, hall⟩ := ih
      exact ⟨k, hstep k s l s' hr.reachable hlast hs, List.forall_mem_cons.2 ⟨hlast, hall⟩⟩

/-- A run goes through reachable states. -/
theorem reachable_of_mem (hr : Run init step h s) : ∀ e ∈ h, Reachable init step e.1 := by
  induction hr with
  | start => simp
  | step hr _ ih => exact List.forall_mem_cons.2 ⟨hr.reachable, ih⟩

/-- **The stability rule.** What every step keeps holds from where it first
holds on, and every step taken from there on is one that keeps it. -/
theorem stable {P : σ → Prop} {Q : σ → ℓ → Prop}
    (hstep : ∀ s l s', Reachable init step s → P s → step s l s' → P s' ∧ Q s l)
    (hr : Run init step h s) {newer older : List (σ × ℓ)} {e : σ × ℓ}
    (hh : h = newer ++ e :: older) (he : P e.1) :
    Throughout P newer s ∧ ∀ e' ∈ newer ++ [e], Q e'.1 e'.2 := by
  induction hr generalizing newer with
  | start => simp at hh
  | @step h s s' l hr hs ih =>
      cases newer with
      | nil =>
          obtain ⟨rfl, rfl⟩ := List.cons.inj hh
          obtain ⟨hP, hQ⟩ := hstep s l s' hr.reachable he hs
          exact ⟨⟨hP, by simp⟩, by simpa using hQ⟩
      | cons e' newer =>
          obtain ⟨rfl, htail⟩ := List.cons.inj hh
          obtain ⟨hPs, hQs⟩ := ih htail
          obtain ⟨hP, hQ⟩ := hstep s l s' hr.reachable hPs.1 hs
          exact ⟨⟨hP, List.forall_mem_cons.2 hPs⟩, List.forall_mem_cons.2 ⟨hQ, hQs⟩⟩

/-- **The rule of the latest change.** What holds at the end of a run, and
at the start of none, came to hold by a step of the run, and has held
since. -/
theorem since {P : σ → Prop} (hinit : ∀ s, init s → ¬ P s) (hr : Run init step h s) (hP : P s) :
    ∃ newer s₁ l s₂ older, h = newer ++ (s₁, l) :: older ∧ (∀ e ∈ newer, P e.1) ∧ ¬ P s₁ ∧
      Run init step older s₁ ∧ step s₁ l s₂ ∧ P s₂ := by
  induction hr with
  | start h0 => exact absurd hP (hinit _ h0)
  | @step h s s' l hr hs ih =>
      by_cases hs₁ : P s
      · obtain ⟨newer, s₁, l₁, s₂, older, rfl, hnewer, hrest⟩ := ih hs₁
        exact ⟨(s, l) :: newer, s₁, l₁, s₂, older, rfl, List.forall_mem_cons.2 ⟨hs₁, hnewer⟩, hrest⟩
      · exact ⟨[], s, l, s', h, rfl, by simp, hs₁, hr, hs, hP⟩

/-- Steps by another name. -/
theorem map_labels {μ : Type*} {step' : σ → μ → σ → Prop} {f : ℓ → μ}
    (hstep : ∀ s l s', step s l s' → step' s (f l) s') (hr : Run init step h s) :
    Run init step' (h.map fun e => (e.1, f e.2)) s := by
  induction hr with
  | start h0 => exact .start h0
  | step _ hs ih => exact .step ih (hstep _ _ _ hs)

/-- **The unwinding rule.** Where a step can be taken back, to a state that
passes for the one it came from, and what takes it back works alike in
states that pass for each other, a run is taken back step by step, the
latest first. -/
theorem unwind {R : σ → σ → Prop} {C : σ → ℓ → Prop} {back : σ → ℓ → σ → Prop} {f : ℓ → ℓ}
    (hback : ∀ s l s', back s l s' → step s (f l) s') (hrefl : ∀ s, R s s)
    (htrans : ∀ s t u, R s t → R t u → R s u)
    (hundo : ∀ s l s', C s l → step s l s' → ∃ t, back s' l t ∧ R s t)
    (hsim : ∀ s t l s', R s t → back s l s' → ∃ t', back t l t' ∧ R s' t')
    (hr : Run init step h s) (hC : ∀ e ∈ h, C e.1 e.2) :
    ∃ s₀ k t, init s₀ ∧ Run (· = s) step k t ∧
      k.map Prod.snd = ((h.map Prod.snd).map f).reverse ∧ R s₀ t := by
  suffices hall : ∃ s₀ k t, init s₀ ∧ Run (· = s) back k t ∧
      k.map Prod.snd = (h.map Prod.snd).reverse ∧ R s₀ t by
    obtain ⟨s₀, k, t, h0, hk, hlabels, ht⟩ := hall
    refine ⟨s₀, _, t, h0, hk.map_labels hback, ?_, ht⟩
    rw [← List.map_reverse, ← hlabels, List.map_map, List.map_map]
    rfl
  -- a run back from one state is one from any state that passes for it
  have hmoved : ∀ {u v : σ} {k : List (σ × ℓ)} {t : σ}, R u v → Run (· = u) back k t →
      ∃ k' t', Run (· = v) back k' t' ∧ k'.map Prod.snd = k.map Prod.snd ∧ R t t' := by
    intro u v k t huv hk
    induction hk with
    | start h0 => exact ⟨[], v, .start rfl, rfl, h0 ▸ huv⟩
    | step _ hs ih =>
        obtain ⟨k', t', hk', hlabels, hR⟩ := ih
        obtain ⟨t'', hs', hR'⟩ := hsim _ _ _ _ hR hs
        exact ⟨_, t'', hk'.step hs', by simp [hlabels], hR'⟩
  induction hr with
  | @start s h0 => exact ⟨s, [], s, h0, .start rfl, rfl, hrefl s⟩
  | @step h s s' l hr hs ih =>
      rw [List.forall_mem_cons] at hC
      obtain ⟨u, hlast, hu⟩ := hundo s l s' hC.1 hs
      obtain ⟨s₀, k, t, h0, hk, hlabels, ht⟩ := ih hC.2
      obtain ⟨k', t', hk', hlabels', ht'⟩ := hmoved hu hk
      refine ⟨s₀, k' ++ [(s', l)], t', h0, ?_, by simp [hlabels', hlabels], htrans _ _ _ ht ht'⟩
      -- one step back in front of the others
      clear hlabels' ht'
      induction hk' with
      | start h0 => exact .step (.start rfl) (h0 ▸ hlast)
      | step _ hs' ih => exact .step ih hs'

/-- **The log rule.** What a step leaves true where it was true before or
the step is an `E`, a run has made true exactly if it has had an `E`. -/
theorem past_iff {P : σ → Prop} {E : σ → ℓ → Prop} (hinit : ∀ s, init s → ¬ P s)
    (hstep : ∀ s l s', Reachable init step s → step s l s' → (P s' ↔ P s ∨ E s l))
    (hr : Run init step h s) : P s ↔ Past E h := by
  induction hr with
  | start h0 => simp [Past, hinit _ h0]
  | step hr hs ih => rw [hstep _ _ _ hr.reachable hs, ih, past_cons, or_comm]

/-- **The log rule, where an `R` makes it untrue again** and nothing is an
`E` after an `R`. -/
theorem past_not_past_iff {P : σ → Prop} {E R : σ → ℓ → Prop} (hinit : ∀ s, init s → ¬ P s)
    (hstep : ∀ s l s', Reachable init step s → step s l s' → (P s' ↔ P s ∧ ¬ R s l ∨ E s l))
    (hlast : ∀ h s l s', Run init step h s → step s l s' → E s l → ¬ R s l ∧ ¬ Past R h)
    (hr : Run init step h s) : P s ↔ Past E h ∧ ¬ Past R h := by
  induction hr with
  | start h0 => simp [Past, hinit _ h0]
  | @step h s s' l hr hs ih =>
      rw [hstep _ _ _ hr.reachable hs, ih, past_cons, past_cons]
      constructor
      · rintro (⟨⟨hE, hR⟩, hno⟩ | hE)
        · exact ⟨.inr hE, not_or.2 ⟨hno, hR⟩⟩
        · exact ⟨.inl hE, not_or.2 (hlast _ _ _ _ hr hs hE)⟩
      · rintro ⟨hE | hE, hR⟩
        · exact .inr hE
        · exact .inl ⟨⟨hE, fun h => hR (.inr h)⟩, fun h => hR (.inl h)⟩

end Run
