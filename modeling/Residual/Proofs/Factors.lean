import Residual.Regex.Basic

/-!
# Sequences are words of factors

A sequence of regexes is known by its factors: a regex that is a sequence itself stands for the
regexes along its right spine, any other for itself, and `epsilon` does not count
(`Regex.factors`). Only `fail` is apart, which absorbs every sequence.

* **one step** — `Tree.factors_andThen`: putting one tree behind another puts their factors behind
  each other;
* **rebuilding** — `Tree.foldr_factors`: a tree is the sequence of its factors;
* **sequences** — `Regex.concat_eq_iff`: two sequences are equal when both are absorbed, or neither
  is and they have the same factors in the same order.
-/

namespace Residual

variable {σ : Type} [Symbol σ]

namespace Tree

/-- The trees that a sequence puts one behind another, and any other tree alone. -/
def spine : Tree σ → List (Tree σ)
  | sequence t u => t :: u.spine
  | t => [t]

/-- The spine without `epsilon`. -/
def factors (t : Tree σ) : List (Tree σ) :=
  t.spine.filter (· ≠ epsilon)

/-! ## Factors of one tree -/

theorem spine_of_not_sequence {t : Tree σ} (h : t.isSequence = false) : t.spine = [t] := by
  cases t with
  | sequence t u => cases h
  | _ => rfl

@[simp] theorem factors_epsilon : (epsilon : Tree σ).factors = [] := by
  simp [factors, spine_of_not_sequence (t := (epsilon : Tree σ)) rfl]

theorem factors_of_not_sequence {t : Tree σ} (h : t.isSequence = false) (ne : t ≠ epsilon) :
    t.factors = [t] := by
  simp [factors, spine_of_not_sequence h, ne]

theorem factors_sequence {t : Tree σ} (ne : t ≠ epsilon) (u : Tree σ) :
    (sequence t u).factors = t :: u.factors := by
  simp [factors, spine, ne]

/-! ## One tree behind another -/

theorem pair_eq_fail {t u : Tree σ} : pair t u = fail ↔ t = fail ∨ u = fail := by
  by_cases absorbed : t = fail ∨ u = fail
  · simp [pair, isFail_iff, absorbed]
  · have parts := not_or.mp absorbed
    by_cases left : t = epsilon
    · rw [left, epsilon_pair]
      simp [parts.2, epsilon]
    · by_cases right : u = epsilon
      · rw [right, pair_epsilon]
        simp [parts.1, epsilon]
      · rw [pair_of_ne ⟨parts.1, left⟩ ⟨parts.2, right⟩]
        simp [parts]

theorem andThen_eq_fail {t u : Tree σ} (ht : t.Canonical) :
    t.andThen u = fail ↔ t = fail ∨ u = fail := by
  induction ht with
  | sequence _ _ nested left_ne right_ne _ ih =>
      rw [sequence_andThen, andThen_of_not_sequence nested, pair_eq_fail, ih]
      simp [left_ne.1, right_ne.1]
  | _ => rw [andThen_of_not_sequence rfl, pair_eq_fail]

theorem factors_pair {t u : Tree σ} (single : t.isSequence = false) (left : t ≠ fail)
    (right : u ≠ fail) : (pair t u).factors = t.factors ++ u.factors := by
  by_cases te : t = epsilon
  · rw [te, epsilon_pair, factors_epsilon, List.nil_append]
  · by_cases ue : u = epsilon
    · rw [ue, pair_epsilon, factors_epsilon, List.append_nil]
    · rw [pair_of_ne ⟨left, te⟩ ⟨right, ue⟩, factors_sequence te, factors_of_not_sequence single te]
      rfl

/-- The factors of one tree behind another, along the spine of the first. -/
theorem factors_andThen {t u : Tree σ} (ht : t.Canonical) (left : t ≠ fail) (right : u ≠ fail) :
    (t.andThen u).factors = t.factors ++ u.factors := by
  induction ht with
  | @sequence t t' _ canonical nested left_ne right_ne _ ih =>
      -- the second tree goes behind the rest of the spine, which does not become `fail`
      have rest : t'.andThen u ≠ fail := by
        rw [ne_eq, andThen_eq_fail canonical]
        simp [right_ne.1, right]
      rw [sequence_andThen, andThen_of_not_sequence nested, factors_pair nested left_ne.1 rest,
        ih right_ne.1, factors_sequence left_ne.2, factors_of_not_sequence nested left_ne.2]
      rfl
  | _ => rw [andThen_of_not_sequence rfl, factors_pair rfl left right]

/-- A tree is the sequence of its factors. -/
theorem foldr_factors {t : Tree σ} (ht : t.Canonical) : t.factors.foldr andThen epsilon = t := by
  have alone {t : Tree σ} (ht : t.Canonical) (single : t.isSequence = false) :
      t.factors.foldr andThen epsilon = t := by
    by_cases te : t = epsilon
    · rw [te, factors_epsilon, List.foldr_nil]
    · rw [factors_of_not_sequence single te, List.foldr_cons, List.foldr_nil, ht.andThen_epsilon]
  induction ht with
  | sequence left right nested left_ne right_ne _ ih =>
      rw [factors_sequence left_ne.2, List.foldr_cons, ih,
        sequence_eq_andThen (.sequence left right nested left_ne right_ne)]
  | _ =>
      refine alone ?_ rfl
      constructor <;> assumption

/-- Trees with the same factors are equal. -/
theorem Canonical.eq_of_factors_eq {t u : Tree σ} (ht : t.Canonical) (hu : u.Canonical)
    (same : t.factors = u.factors) : t = u := by
  rw [← foldr_factors ht, same, foldr_factors hu]

end Tree

namespace Regex

/-! ## The monoid -/

theorem andThen_assoc (r s t : Regex σ) : (r.andThen s).andThen t = r.andThen (s.andThen t) :=
  tree_inj.mp (Tree.andThen_assoc _ _ _)

theorem epsilon_andThen (r : Regex σ) : epsilon.andThen r = r :=
  tree_inj.mp (Tree.epsilon_andThen _)

theorem andThen_epsilon (r : Regex σ) : r.andThen epsilon = r :=
  tree_inj.mp r.canonical.andThen_epsilon

theorem andThen_eq_fail {r s : Regex σ} : r.andThen s = fail ↔ r = fail ∨ s = fail := by
  simp only [← tree_inj]
  exact Tree.andThen_eq_fail r.canonical

theorem andThen_eq_epsilon {r s : Regex σ} : r.andThen s = epsilon ↔ r = epsilon ∧ s = epsilon := by
  simp only [← tree_inj]
  exact r.canonical.andThen_eq_epsilon

/-! ## Sequences of many regexes -/

theorem concat_nil : concat ([] : List (Regex σ)) = epsilon :=
  rfl

theorem concat_cons (r : Regex σ) (rs : List (Regex σ)) :
    concat (r :: rs) = r.andThen (concat rs) :=
  rfl

theorem concat_append (rs ss : List (Regex σ)) :
    concat (rs ++ ss) = (concat rs).andThen (concat ss) := by
  induction rs with
  | nil => rw [List.nil_append, concat_nil, epsilon_andThen]
  | cons r rs ih => rw [List.cons_append, concat_cons, concat_cons, ih, andThen_assoc]

theorem concat_eq_fail {rs : List (Regex σ)} : concat rs = fail ↔ fail ∈ rs := by
  induction rs with
  | nil =>
      have ne : (epsilon : Regex σ) ≠ fail := by
        rw [ne_eq, ← tree_inj]
        exact nofun
      simpa [concat_nil] using ne
  | cons r rs ih => rw [concat_cons, andThen_eq_fail, ih, List.mem_cons, eq_comm]

theorem concat_eq_epsilon {rs : List (Regex σ)} :
    concat rs = epsilon ↔ ∀ r ∈ rs, r = epsilon := by
  induction rs with
  | nil => simp [concat_nil]
  | cons r rs ih => rw [concat_cons, andThen_eq_epsilon, ih, List.forall_mem_cons]

/-- The factors of regexes one after another: every sequence is taken apart into its spine, and
`epsilon` is left out. -/
def factors (rs : List (Regex σ)) : List (Tree σ) :=
  (rs.flatMap fun r => r.tree.spine).filter (· ≠ Tree.epsilon)

theorem factors_cons (r : Regex σ) (rs : List (Regex σ)) :
    factors (r :: rs) = r.tree.factors ++ factors rs := by
  rw [factors, List.flatMap_cons, List.filter_append]
  rfl

/-- A sequence that is not absorbed has the factors of its items. -/
theorem factors_concat {rs : List (Regex σ)} (h : fail ∉ rs) :
    (concat rs).tree.factors = factors rs := by
  induction rs with
  | nil => exact Tree.factors_epsilon
  | cons r rs ih =>
      have head : r.tree ≠ Tree.fail := fun eq => h (List.mem_cons.mpr (.inl (tree_inj.mp eq.symm)))
      have tail : fail ∉ rs := fun mem => h (List.mem_cons_of_mem _ mem)
      have rest : (concat rs).tree ≠ Tree.fail :=
        fun eq => tail (concat_eq_fail.mp (tree_inj.mp eq))
      rw [factors_cons, ← ih tail]
      exact Tree.factors_andThen r.canonical head rest

/-- Two sequences are equal when both are absorbed, or when neither is and they have the same
factors in the same order. -/
theorem concat_eq_iff {rs ss : List (Regex σ)} : concat rs = concat ss ↔
    fail ∈ rs ∧ fail ∈ ss ∨ fail ∉ rs ∧ fail ∉ ss ∧ factors rs = factors ss := by
  constructor
  · intro same
    have absorbed : fail ∈ rs ↔ fail ∈ ss := by
      rw [← concat_eq_fail, same, concat_eq_fail]
    by_cases absorbs : fail ∈ rs
    · exact .inl ⟨absorbs, absorbed.mp absorbs⟩
    · have absorbs' := mt absorbed.mpr absorbs
      refine .inr ⟨absorbs, absorbs', ?_⟩
      rw [← factors_concat absorbs, same, factors_concat absorbs']
  · rintro (⟨absorbs, absorbs'⟩ | ⟨absorbs, absorbs', same⟩)
    · rw [concat_eq_fail.mpr absorbs, concat_eq_fail.mpr absorbs']
    · apply tree_inj.mp
      apply (concat rs).canonical.eq_of_factors_eq (concat ss).canonical
      rw [factors_concat absorbs, same, factors_concat absorbs']

/-- Sequences are the free monoid of their factors, with a zero: they are equal when both are
absorbed by `fail` or when they have the same factors, they associate with `epsilon` as their unit
and `fail` as their zero, longer sequences are made of shorter ones, and the zero and the unit come
from nothing else. -/
theorem concat_free (σ : Type) [Symbol σ] :
    (∀ rs ss : List (Regex σ), concat rs = concat ss ↔
      fail ∈ rs ∧ fail ∈ ss ∨ fail ∉ rs ∧ fail ∉ ss ∧ factors rs = factors ss) ∧
    (∀ r s t : Regex σ, (r.andThen s).andThen t = r.andThen (s.andThen t)) ∧
    (∀ r : Regex σ, epsilon.andThen r = r ∧ r.andThen epsilon = r) ∧
    (∀ r : Regex σ, fail.andThen r = fail ∧ r.andThen fail = fail) ∧
    (∀ rs ss : List (Regex σ), concat (rs ++ ss) = (concat rs).andThen (concat ss)) ∧
    ∀ rs : List (Regex σ), (concat rs = fail ↔ fail ∈ rs) ∧
      (concat rs = epsilon ↔ ∀ r ∈ rs, r = epsilon) := by
  refine ⟨?_, andThen_assoc, ?_, ?_, concat_append, ?_⟩
  · intro rs ss
    exact concat_eq_iff
  · intro r
    exact ⟨epsilon_andThen r, andThen_epsilon r⟩
  · intro r
    exact ⟨andThen_eq_fail.mpr (.inl rfl), andThen_eq_fail.mpr (.inr rfl)⟩
  · intro rs
    exact ⟨concat_eq_fail, concat_eq_epsilon⟩

end Regex

end Residual
