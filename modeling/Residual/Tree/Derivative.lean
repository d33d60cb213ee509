import Residual.Tree.Join
import Residual.Tree.Sequence

/-!
# Derivatives of trees

The derivative of a tree by a symbol is what is left to match once the symbol has been read. It
keeps trees canonical (`Canonical.derivative`), and the derivative of a union or an intersection is
taken member by member (`derivative_combine`).
-/

namespace Residual.Tree

variable {σ : Type} [Symbol σ]

mutual

/-- What is left to match once the symbol `c` has been read. -/
def derivative (t : Tree σ) (c : σ) : Tree σ :=
  match t with
  | single d => if d = c then epsilon else fail
  | block (d :: ds) => if d = c then word ds else fail
  | block [] => fail
  | any => epsilon
  | fail => fail
  | closure t => (t.derivative c).andThen (closure t)
  | negation t => (t.derivative c).complement
  | sequence t u =>
      let left := (t.derivative c).andThen u
      if t.nullable then combine .or [left, u.derivative c] else left
  | join op members => combine op (derivatives members c)

/-- The derivatives of every tree of a list. -/
def derivatives (ts : List (Tree σ)) (c : σ) : List (Tree σ) :=
  match ts with
  | [] => []
  | t :: ts => t.derivative c :: derivatives ts c

end

theorem derivatives_eq_map (ts : List (Tree σ)) (c : σ) :
    derivatives ts c = ts.map fun t => t.derivative c := by
  induction ts with
  | nil => rfl
  | cons t ts ih => exact congrArg (t.derivative c :: ·) ih

theorem derivative_single (d c : σ) :
    (single d).derivative c = if d = c then epsilon else fail := rfl

theorem derivative_block_nil (c : σ) : (block []).derivative c = fail := rfl

theorem derivative_block_cons (d : σ) (ds : List σ) (c : σ) :
    (block (d :: ds)).derivative c = if d = c then word ds else fail := rfl

@[simp] theorem derivative_any (c : σ) : any.derivative c = epsilon := rfl

@[simp] theorem derivative_fail (c : σ) : fail.derivative c = fail := rfl

@[simp] theorem derivative_closure (t : Tree σ) (c : σ) :
    (closure t).derivative c = (t.derivative c).andThen (closure t) := rfl

@[simp] theorem derivative_negation (t : Tree σ) (c : σ) :
    (negation t).derivative c = (t.derivative c).complement := rfl

theorem derivative_sequence (t u : Tree σ) (c : σ) :
    (sequence t u).derivative c =
      if t.nullable then combine .or [(t.derivative c).andThen u, u.derivative c]
      else (t.derivative c).andThen u := rfl

@[simp] theorem derivative_join (op : Connective) (members : List (Tree σ)) (c : σ) :
    (join op members).derivative c = combine op (members.map fun t => t.derivative c) :=
  congrArg (combine op) (derivatives_eq_map members c)

theorem Canonical.derivative {t : Tree σ} (ht : t.Canonical) (c : σ) :
    (t.derivative c).Canonical := by
  induction ht with
  | single d =>
    rw [derivative_single]
    split
    · exact canonical_epsilon
    · exact .fail
  | @block cs nonempty =>
    cases cs with
    | nil => exact absurd rfl nonempty
    | cons d ds =>
      rw [derivative_block_cons]
      split
      · exact canonical_word ds
      · exact .fail
  | any => simpa using canonical_epsilon
  | fail => simpa using .fail
  | closure canonical single ih => simpa using ih.andThen (.closure canonical single)
  | negation _ _ ih => simpa using ih.complement
  | sequence left right _ _ _ ih ih' =>
    rw [derivative_sequence]
    split
    · exact canonical_combine (by simpa using ⟨ih.andThen right, ih'⟩)
    · exact ih.andThen right
  | join _ _ _ _ ih =>
    rw [derivative_join]
    exact canonical_combine (by simpa using ih)

/-! ## Derivatives of unions and intersections -/

variable {op : Connective}

@[simp] theorem derivative_unit (c : σ) : (op.unit : Tree σ).derivative c = op.unit := by
  cases op
  · exact derivative_fail c
  · simp [Connective.unit, success, complement]

@[simp] theorem derivative_zero (c : σ) : (op.zero : Tree σ).derivative c = op.zero := by
  cases op
  · simp [Connective.zero, success, complement]
  · exact derivative_fail c

theorem respectsJoins_derivative (op : Connective) (c : σ) :
    RespectsJoins op fun t => t.derivative c where
  canonical _ ht := ht.derivative c
  unit := derivative_unit c
  zero := derivative_zero c
  join members := derivative_join op members c

/-- Derivatives are taken member by member. -/
theorem derivative_combine {ts : List (Tree σ)} (hts : ∀ t ∈ ts, t.Canonical) (c : σ) :
    (combine op ts).derivative c = combine op (ts.map fun t => t.derivative c) :=
  (respectsJoins_derivative op c).map_combine hts

end Residual.Tree
