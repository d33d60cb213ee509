import Residual.Tree.Canonical

/-!
# Laws of sequences

Sequences associate (`andThen_assoc`), `fail` absorbs them, and `epsilon` is their unit
(`epsilon_andThen`, `Canonical.andThen_epsilon`). A sequence is only written as something else when
one of its two trees is `fail` or `epsilon`.
-/

namespace Residual.Tree

variable {σ : Type} [Symbol σ]

theorem andThen_of_not_sequence {t : Tree σ} (h : t.isSequence = false) (u : Tree σ) :
    t.andThen u = pair t u := by
  cases t with
  | sequence t t' => cases h
  | _ => rfl

@[simp] theorem sequence_andThen (t t' u : Tree σ) :
    (sequence t t').andThen u = t.andThen (t'.andThen u) := rfl

@[simp] theorem fail_andThen (u : Tree σ) : fail.andThen u = fail := rfl

@[simp] theorem epsilon_andThen (u : Tree σ) : epsilon.andThen u = u := by
  cases u <;> rfl

theorem pair_fail (t : Tree σ) : pair t fail = fail := by
  cases t <;> rfl

theorem pair_epsilon (t : Tree σ) : pair t epsilon = t := by
  by_cases ht : t = fail
  · simp [pair, ht, isFail]
  · by_cases he : t = epsilon
    · subst he; rfl
    · simp [pair, isFail_iff, isEpsilon_iff, ht, he]; simp [epsilon]

@[simp] theorem epsilon_pair (u : Tree σ) : pair epsilon u = u := by
  rw [← andThen_of_not_sequence rfl, epsilon_andThen]

/-- Outside its special cases a sequence is written as one. -/
theorem pair_of_ne {t u : Tree σ} (ht : t ≠ fail ∧ t ≠ epsilon) (hu : u ≠ fail ∧ u ≠ epsilon) :
    pair t u = sequence t u := by
  simp [pair, isFail_iff, isEpsilon_iff, ht, hu]

theorem Canonical.pair {t u : Tree σ} (ht : t.Canonical) (hu : u.Canonical)
    (h : t.isSequence = false) : (pair t u).Canonical := by
  unfold Tree.pair
  split
  · exact .fail
  · split
    · exact hu
    · split
      · exact ht
      · next hf hte hue =>
        simp only [Bool.or_eq_true, isFail_iff, isEpsilon_iff, not_or] at hf hte hue
        exact .sequence ht hu h ⟨hf.1, hte⟩ ⟨hf.2, hue⟩

theorem Canonical.andThen {t u : Tree σ} (ht : t.Canonical) (hu : u.Canonical) :
    (t.andThen u).Canonical := by
  induction ht generalizing u with
  | sequence left right nested _ _ _ ih =>
    rw [sequence_andThen, andThen_of_not_sequence nested]
    exact left.pair (ih hu) nested
  | _ =>
    rw [andThen_of_not_sequence rfl]
    refine Canonical.pair ?_ hu rfl
    constructor <;> assumption

private theorem andThen_assoc_of_not_sequence {t : Tree σ} (h : t.isSequence = false)
    (u v : Tree σ) : (t.andThen u).andThen v = t.andThen (u.andThen v) := by
  rw [andThen_of_not_sequence h, andThen_of_not_sequence h]
  by_cases tf : t = fail
  · simp [tf, pair, isFail]
  by_cases uf : u = fail
  · simp [uf, pair_fail]
  by_cases te : t = epsilon
  · subst te
    simp
  by_cases ue : u = epsilon
  · rw [ue, pair_epsilon, epsilon_andThen, andThen_of_not_sequence h]
  · rw [pair_of_ne ⟨tf, te⟩ ⟨uf, ue⟩, sequence_andThen, andThen_of_not_sequence h]

/-- Sequences associate. -/
theorem andThen_assoc (t u v : Tree σ) : (t.andThen u).andThen v = t.andThen (u.andThen v) := by
  induction t using ind generalizing u with
  | sequence t t' ih ih' => simp [ih, ih']
  | _ => exact andThen_assoc_of_not_sequence rfl u v

theorem Canonical.andThen_epsilon {t : Tree σ} (ht : t.Canonical) : t.andThen epsilon = t := by
  induction ht with
  | sequence _ _ nested left_ne right_ne _ ih =>
    rw [sequence_andThen, ih, andThen_of_not_sequence nested, pair_of_ne left_ne right_ne]
  | _ => rw [andThen_of_not_sequence rfl, pair_epsilon]

theorem sequence_eq_andThen {t u : Tree σ} (h : (sequence t u).Canonical) :
    sequence t u = t.andThen u := by
  cases h with
  | sequence _ _ nested left_ne right_ne =>
    rw [andThen_of_not_sequence nested, pair_of_ne left_ne right_ne]

/-! What a sequence that is written as something else is made of. -/

theorem pair_eq_epsilon {t u : Tree σ} : pair t u = epsilon ↔ t = epsilon ∧ u = epsilon := by
  refine ⟨fun h => ?_, by rintro ⟨rfl, rfl⟩; rfl⟩
  unfold pair at h
  split at h
  · simp [epsilon] at h
  · split at h
    · next h' => exact ⟨isEpsilon_iff.1 h', h⟩
    · split at h
      · next h' => exact ⟨h, isEpsilon_iff.1 h'⟩
      · simp [epsilon] at h

theorem pair_eq_negation {t u v : Tree σ} (h : pair t u = negation v) :
    t = epsilon ∧ u = negation v ∨ t = negation v ∧ u = epsilon := by
  unfold pair at h
  split at h
  · simp at h
  · split at h
    · next h' => exact .inl ⟨isEpsilon_iff.1 h', h⟩
    · split at h
      · next h' => exact .inr ⟨h, isEpsilon_iff.1 h'⟩
      · simp at h

theorem Canonical.andThen_eq_epsilon {t u : Tree σ} (ht : t.Canonical) :
    t.andThen u = epsilon ↔ t = epsilon ∧ u = epsilon := by
  cases ht with
  | sequence _ _ nested left_ne =>
    rw [sequence_andThen, andThen_of_not_sequence nested, pair_eq_epsilon]
    simp [left_ne]
    simp [epsilon]
  | _ => rw [andThen_of_not_sequence rfl, pair_eq_epsilon]

theorem Canonical.andThen_eq_negation {t u v : Tree σ} (ht : t.Canonical)
    (h : t.andThen u = Tree.negation v) :
    t = epsilon ∧ u = Tree.negation v ∨ t = Tree.negation v ∧ u = epsilon := by
  cases ht with
  | sequence _ right nested left_ne right_ne =>
    rw [sequence_andThen, andThen_of_not_sequence nested] at h
    rcases pair_eq_negation h with ⟨eq, _⟩ | ⟨_, eq⟩
    · exact absurd eq left_ne.2
    · exact absurd (right.andThen_eq_epsilon.1 eq).1 right_ne.2
  | _ => rw [andThen_of_not_sequence rfl] at h; exact pair_eq_negation h

end Residual.Tree
