import Rmrk.Common.Run
import Rmrk.Common.StorageMap
/-!
# What becomes of an entry

Keys of a map are issued one after the other, and not again. An entry under
a key that has been issued changes as its kind allows, and once it has
gone no other takes its place: so what the entry is at two times of a run
is related, however much lies in between.
-/

variable {K V : Type} {R : V → V → Prop} {I I' I'' : K → Prop} {m m' m'' : StorageMap K V}

/-- **The entries under issued keys have aged** from `m` to `m'`, while the
issued keys went from `I` to `I'`. -/
structure Ages (R : V → V → Prop) (I I' : K → Prop) (m m' : StorageMap K V) : Prop where
  issued : ∀ k, I k → I' k
  gone : ∀ k, I k → m k = none → m' k = none
  changed : ∀ k v v', I k → m k = some v → m' k = some v' → R v v'

namespace Ages

/-- Nothing has been written under an issued key. -/
theorem of_eq (hR : ∀ v, R v v) (hI : ∀ k, I k → I' k) (h : ∀ k, I k → m' k = m k) :
    Ages R I I' m m' where
  issued := hI
  gone k hk hnone := (h k hk).trans hnone
  changed k v v' hk hv hv' := by
    obtain rfl : v = v' := Option.some.inj (hv.symm.trans ((h k hk).symm.trans hv'))
    exact hR v

/-- **What is there was there before**, and has changed as allowed. -/
theorem of_kept (hI : ∀ k, I k → I' k)
    (h : ∀ k v', I k → m' k = some v' → ∃ v, m k = some v ∧ R v v') : Ages R I I' m m' where
  issued := hI
  gone k hk hnone := by
    by_contra hsome
    obtain ⟨v', hv'⟩ := Option.ne_none_iff_exists'.1 hsome
    obtain ⟨v, hv, -⟩ := h k v' hk hv'
    rw [hnone] at hv
    cases hv
  changed k v v' hk hv hv' := by
    obtain ⟨w, hw, hR⟩ := h k v' hk hv'
    obtain rfl := Option.some.inj (hv.symm.trans hw)
    exact hR

theorem trans (hR : ∀ u v w, R u v → R v w → R u w) (h : Ages R I I' m m')
    (h' : Ages R I' I'' m' m'') : Ages R I I'' m m'' where
  issued k hk := h'.issued k (h.issued k hk)
  gone k hk hnone := h'.gone k (h.issued k hk) (h.gone k hk hnone)
  changed k u w hk hu hw := by
    cases hv : m' k with
    | none => simp [h'.gone k (h.issued k hk) hv] at hw
    | some v => exact hR u v w (h.changed k u v hk hu hv) (h'.changed k v w (h.issued k hk) hv hw)

section Writes

variable [DecidableEq K] {k : K} {v : V}

/-- What is put under a key that has not been issued is no entry's. -/
theorem of_insert (hR : ∀ v, R v v) (hI : ∀ k, I k → I' k) (hk : ¬ I k) :
    Ages R I I' m (m.insert k v) :=
  of_eq hR hI fun _ hq => StorageMap.insert_of_ne fun hqk => hk (hqk ▸ hq)

/-- What is written over an entry is what it has become. -/
theorem of_overwrite (hR : ∀ v, R v v) (hI : ∀ k, I k → I' k) {u : V} (hu : m k = some u)
    (huv : R u v) : Ages R I I' m (m.insert k v) := by
  refine of_kept hI fun q v' _ hv' => ?_
  rcases StorageMap.insert_eq_some_iff.1 hv' with ⟨rfl, rfl⟩ | ⟨-, hv'⟩
  · exact ⟨u, hu, huv⟩
  · exact ⟨v', hv', hR v'⟩

theorem of_mutate (hR : ∀ v, R v v) (hI : ∀ k, I k → I' k) {f : V → V} (hf : ∀ u, R u (f u)) :
    Ages R I I' m (m.mutate k f) := by
  refine of_kept hI fun q v' _ hv' => ?_
  obtain ⟨u, hu, rfl | rfl⟩ := StorageMap.exists_of_mutate_eq_some hv'
  · exact ⟨_, hu, hR _⟩
  · exact ⟨u, hu, hf u⟩

theorem of_remove (hR : ∀ v, R v v) (hI : ∀ k, I k → I' k) : Ages R I I' m (m.remove k) :=
  of_kept hI fun _ v' _ hv' => ⟨v', (StorageMap.remove_eq_some_iff.1 hv').2, hR v'⟩

end Writes

end Ages
