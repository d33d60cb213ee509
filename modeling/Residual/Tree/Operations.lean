import Residual.Tree.Members

/-!
# Operations on trees

The operations that build trees in canonical form:

* a closure of a closure is the closure itself, and a complement of a complement cancels;
* sequences associate to the right, `fail` absorbs a sequence and `epsilon` vanishes from one;
* members of a union or an intersection are flat, sorted and free of repetition; the unit of the
  connective vanishes and its zero absorbs; without members they are the unit, and a single member
  stands for itself.
-/

namespace Residual

variable {σ : Type} [Symbol σ]

namespace Connective

/-- What no members at all make. -/
def unit : Connective → Tree σ
  | or => .fail
  | and => .success

/-- What absorbs every other member. -/
def zero : Connective → Tree σ
  | or => .success
  | and => .fail

/-- The tree is the unit of the connective. -/
def isUnit : Connective → Tree σ → Bool
  | or, t => t.isFail
  | and, t => t.isSuccess

/-- The tree is the zero of the connective. -/
def isZero : Connective → Tree σ → Bool
  | or, t => t.isSuccess
  | and, t => t.isFail

theorem isUnit_iff {op : Connective} {t : Tree σ} : op.isUnit t = true ↔ t = op.unit := by
  cases op
  · exact Tree.isFail_iff
  · exact Tree.isSuccess_iff

theorem isZero_iff {op : Connective} {t : Tree σ} : op.isZero t = true ↔ t = op.zero := by
  cases op
  · exact Tree.isSuccess_iff
  · exact Tree.isFail_iff

end Connective

namespace Tree

/-! ## Words and repetition -/

/-- The tree that matches exactly the given word. -/
def word : List σ → Tree σ
  | [] => epsilon
  | cs => block cs

/-- Any number of repetitions. -/
def star : Tree σ → Tree σ
  | closure t => closure t
  | t => closure t

/-- Every word that the tree does not match. -/
def complement : Tree σ → Tree σ
  | negation t => t
  | t => negation t

/-! ## Sequences -/

/-- A sequence of two trees of which the first is no sequence. -/
def pair (t u : Tree σ) : Tree σ :=
  if t.isFail || u.isFail then fail
  else if t.isEpsilon then u
  else if u.isEpsilon then t
  else sequence t u

/-- One tree followed by another. -/
def andThen : Tree σ → Tree σ → Tree σ
  | sequence t t', u => t.andThen (t'.andThen u)
  | t, u => pair t u

/-! ## Unions and intersections -/

/-- What a tree contributes to the members of a connective: a tree that the connective joins its
members, the unit nothing, and any other tree itself. -/
def contribution (op : Connective) : Tree σ → List (Tree σ)
  | join op' members => if op = op' then members else [join op' members]
  | t => if op.isUnit t then [] else [t]

/-- Everything that the trees of a list contribute to a connective. -/
def contributions (op : Connective) (ts : List (Tree σ)) : List (Tree σ) :=
  ts.flatMap (contribution op)

/-- The join of members that are in normal order. -/
def ofMembers (op : Connective) : List (Tree σ) → Tree σ
  | [] => op.unit
  | [t] => t
  | members => join op members

/-- The join of a list of trees. -/
def combine (op : Connective) (ts : List (Tree σ)) : Tree σ :=
  if ts.any op.isZero then op.zero else ofMembers op (normalize (contributions op ts))

end Tree

end Residual
