import Residual.Tree.Basic

/-!
# Equality and order of trees

Trees are ordered by digest first. Trees with one digest are ordered by structure: by the kind of
their top nodes, then by what the nodes hold, where children are again ordered by digest first.
`order` is that order and `topOrder` its structural half, which leaves the digests of the two top
nodes out of account. Equality is equality of trees, decided by digest first as well.
-/

namespace Residual.Tree

variable {σ : Type} [Symbol σ]

/-! ## Equality -/

/-- Decides equality of two wholes by the equality of their first and then of their second parts. -/
@[inline] private def decideBoth {p q whole : Prop} (both : p ∧ q ↔ whole) :
    Decidable p → (Unit → Decidable q) → Decidable whole
  | isFalse no, _ => isFalse fun h => no (both.2 h).1
  | isTrue yes, rest =>
    match rest () with
    | isFalse no => isFalse fun h => no (both.2 h).2
    | isTrue also => isTrue (both.1 ⟨yes, also⟩)

mutual

/-- Equality of trees. Trees that share memory or have different digests are settled at once. -/
def decEq (t u : Tree σ) : Decidable (t = u) :=
  withPtrEqDecEq t u fun _ =>
    if same : t.digest = u.digest then
      match t with
      | .single c =>
        match u with
        | .single d => decidable_of_iff (c = d) (by simp)
        | .block _ | .any | .fail | .closure _ | .negation _ | .sequence _ _ | .join _ _ =>
          isFalse nofun
      | .block cs =>
        match u with
        | .block ds => decidable_of_iff (cs = ds) (by simp)
        | .single _ | .any | .fail | .closure _ | .negation _ | .sequence _ _ | .join _ _ =>
          isFalse nofun
      | .any =>
        match u with
        | .any => isTrue rfl
        | .single _ | .block _ | .fail | .closure _ | .negation _ | .sequence _ _ | .join _ _ =>
          isFalse nofun
      | .fail =>
        match u with
        | .fail => isTrue rfl
        | .single _ | .block _ | .any | .closure _ | .negation _ | .sequence _ _ | .join _ _ =>
          isFalse nofun
      | .closure t =>
        match u with
        | .closure u => @decidable_of_iff _ (t = u) (by simp) (decEq t u)
        | .single _ | .block _ | .any | .fail | .negation _ | .sequence _ _ | .join _ _ =>
          isFalse nofun
      | .negation t =>
        match u with
        | .negation u => @decidable_of_iff _ (t = u) (by simp) (decEq t u)
        | .single _ | .block _ | .any | .fail | .closure _ | .sequence _ _ | .join _ _ =>
          isFalse nofun
      | .sequence t t' =>
        match u with
        | .sequence u u' => decideBoth (by simp) (decEq t u) fun _ => decEq t' u'
        | .single _ | .block _ | .any | .fail | .closure _ | .negation _ | .join _ _ =>
          isFalse nofun
      | .join op ts =>
        match u with
        | .join op' us =>
          decideBoth (p := op = op') (by simp) inferInstance fun _ => decEqMembers ts us
        | .single _ | .block _ | .any | .fail | .closure _ | .negation _ | .sequence _ _ =>
          isFalse nofun
    else isFalse fun equal => same (congrArg digest equal)

/-- Equality of lists of trees. -/
def decEqMembers (ts us : List (Tree σ)) : Decidable (ts = us) :=
  match ts with
  | [] =>
    match us with
    | [] => isTrue rfl
    | _ :: _ => isFalse nofun
  | t :: ts =>
    match us with
    | [] => isFalse nofun
    | u :: us => decideBoth (by simp) (decEq t u) fun _ => decEqMembers ts us

end

instance : DecidableEq (Tree σ) := decEq

/-! ## Order -/

/-- The kind of the top node, in the order of the kinds. -/
def rank : Tree σ → Nat
  | single _ => 0
  | block _ => 1
  | any => 2
  | fail => 3
  | closure _ => 4
  | negation _ => 5
  | sequence _ _ => 6
  | join op _ => op.tag.toNat

/-- The order of two symbols, by code. -/
def symbolOrder (c d : σ) : Ordering :=
  compare (Symbol.code c) (Symbol.code d)

/-- Digests first, and structure only where they are equal and the trees are not. -/
@[macro_inline] def byDigest (t u : Tree σ) (structural : Ordering) : Ordering :=
  (compare t.digest u.digest).then (if t = u then .eq else structural)

mutual

/-- The order of two trees by the structure of their top nodes. -/
def topOrder (t u : Tree σ) : Ordering :=
  match t, u with
  | single c, single d => symbolOrder c d
  | block cs, block ds => List.compareLex symbolOrder cs ds
  | closure t, closure u => byDigest t u (topOrder t u)
  | negation t, negation u => byDigest t u (topOrder t u)
  | sequence t t', sequence u u' =>
      (byDigest t u (topOrder t u)).then (byDigest t' u' (topOrder t' u'))
  | join op ts, join op' us => if op = op' then memberOrder ts us else compare op.tag op'.tag
  | t, u => compare t.rank u.rank

/-- The lexicographic order of two lists of trees. -/
def memberOrder (ts us : List (Tree σ)) : Ordering :=
  match ts, us with
  | [], [] => .eq
  | [], _ :: _ => .lt
  | _ :: _, [] => .gt
  | t :: ts, u :: us => (byDigest t u (topOrder t u)).then (memberOrder ts us)

end

/-- The order of two trees: by digest, then by structure. -/
def order (t u : Tree σ) : Ordering :=
  byDigest t u (topOrder t u)

end Residual.Tree
