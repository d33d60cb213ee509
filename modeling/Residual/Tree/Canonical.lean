import Residual.Tree.Operations

/-!
# Canonical trees

A tree is canonical when it is written in the one way that the operations write it. All operations
keep trees canonical. For words, closures and complements that is shown here, for sequences, joins
and derivatives beside their laws.
-/

namespace Residual

variable {σ : Type} [Symbol σ]

/-- A tree that can stand among the members of a connective: it is no such connective itself and
neither the unit nor the zero. -/
structure Connective.Joins (op : Connective) (t : Tree σ) : Prop where
  flat : t.isJoin op = false
  ne_unit : t ≠ op.unit
  ne_zero : t ≠ op.zero

namespace Tree

/-- The canonical trees. -/
inductive Canonical : Tree σ → Prop
  | single (c : σ) : Canonical (single c)
  | block {cs : List σ} (nonempty : cs ≠ []) : Canonical (block cs)
  | any : Canonical any
  | fail : Canonical fail
  | closure {t : Tree σ} (canonical : Canonical t) (single : t.isClosure = false) :
      Canonical (closure t)
  | negation {t : Tree σ} (canonical : Canonical t) (single : t.isNegation = false) :
      Canonical (negation t)
  | sequence {t u : Tree σ} (left : Canonical t) (right : Canonical u)
      (right_nested : t.isSequence = false) (left_ne : t ≠ fail ∧ t ≠ epsilon)
      (right_ne : u ≠ fail ∧ u ≠ epsilon) : Canonical (sequence t u)
  | join {op : Connective} {members : List (Tree σ)}
      (canonical : ∀ t ∈ members, Canonical t) (joins : ∀ t ∈ members, op.Joins t)
      (increasing : Increasing members) (several : 2 ≤ members.length) : Canonical (join op members)

theorem canonical_epsilon : (epsilon : Tree σ).Canonical :=
  .closure .fail rfl

theorem canonical_success : (success : Tree σ).Canonical :=
  .negation .fail rfl

theorem canonical_word (cs : List σ) : (word cs).Canonical := by
  cases cs with
  | nil => exact canonical_epsilon
  | cons c cs => exact .block (List.cons_ne_nil c cs)

theorem Canonical.star {t : Tree σ} (ht : t.Canonical) : t.star.Canonical := by
  unfold Tree.star
  split
  · exact ht
  · next h => exact .closure ht (by cases t <;> simp_all [isClosure])

theorem Canonical.complement {t : Tree σ} (ht : t.Canonical) : t.complement.Canonical := by
  unfold Tree.complement
  split
  · cases ht; assumption
  · next h => exact .negation ht (by cases t <;> simp_all [isNegation])

end Tree

end Residual
