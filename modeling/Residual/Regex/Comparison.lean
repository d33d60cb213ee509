import Residual.Regex.Basic

/-!
# Comparisons

Equality and order are told by one recursion. Regexes are compared by digest first, and by structure
where the digests are equal: by the kind of the top nodes, then part by part what the nodes hold,
where children are again compared by digest first. What differs is how the outcome is reported
(`Report`): as whether two regexes are equal, as how they are ordered, or as how they are ordered if
they can be.

A comparison may know of two trees that they are the same before it looks at them, for instance
since they share memory. `Tree.Shortcut` stands for any such knowledge.
-/

namespace Residual

/-- How the outcome of a comparison is reported. -/
structure Report (α : Type) where
  /-- The report on things that are ordered as given. -/
  of : Ordering → α
  /-- The report on two numbers. -/
  numbers : Nat → Nat → α
  /-- The report on a whole, by those on a first part and on the rest of it. -/
  andThen : α → α → α
  numbers_eq : ∀ m n, numbers m n = of (compare m n)
  andThen_of : ∀ first rest, andThen (of first) (of rest) = of (first.then rest)

namespace Report

/-- Whether two things are equal. -/
def equality : Report Bool where
  of o := o == .eq
  numbers m n := m == n
  andThen first rest := first && rest
  numbers_eq m n := by rw [Bool.eq_iff_iff, beq_iff_eq, beq_iff_eq, Nat.compare_eq_eq]
  andThen_of first rest := by cases first <;> cases rest <;> rfl

/-- How two things are ordered. -/
def ordering : Report Ordering where
  of o := o
  numbers := compare
  andThen := Ordering.then
  numbers_eq _ _ := rfl
  andThen_of _ _ := rfl

/-- How two things are ordered, if they can be. A part that cannot be ordered settles the whole. -/
def partialOrdering : Report (Option Ordering) where
  of := some
  numbers m n := some (compare m n)
  andThen
    | some .eq, rest => rest
    | first, _ => first
  numbers_eq _ _ := rfl
  andThen_of first rest := by cases first <;> rfl

variable {α β : Type}

/-- The report on two lists, item by item. A list comes before those that continue it. -/
def lists (report : Report α) (items : β → β → α) : List β → List β → α
  | [], [] => report.of .eq
  | [], _ :: _ => report.of .lt
  | _ :: _, [] => report.of .gt
  | x :: xs, y :: ys => report.andThen (items x y) (report.lists items xs ys)

/-- The report on two symbols, by code. -/
def symbols {σ : Type} [Symbol σ] (report : Report α) (c d : σ) : α :=
  report.numbers (Symbol.code c) (Symbol.code d)

end Report

variable {σ : Type} [Symbol σ]

namespace Tree

/-- A test that recognizes some pairs of equal trees without comparing them. -/
structure Shortcut (σ : Type) [Symbol σ] where
  taken : Tree σ → Tree σ → Bool
  eq_of_taken : ∀ t u, taken t u = true → t = u

/-- The test that recognizes nothing. -/
def Shortcut.never : Shortcut σ :=
  ⟨fun _ _ => false, nofun⟩

variable {α : Type} (report : Report α) (known : Shortcut σ)

/-- Nothing more is compared of trees that are known to be the same. Of others, digests are compared
first, and structure only where they are equal. -/
@[macro_inline] def compareDigests (t u : Tree σ) (structural : α) : α :=
  if known.taken t u then report.of .eq
  else report.andThen (report.numbers t.digest.toNat u.digest.toNat) structural

mutual

/-- The report on the structure of two top nodes. -/
def compareTop (t u : Tree σ) : α :=
  match t, u with
  | single c, single d => report.symbols c d
  | block cs, block ds => report.lists report.symbols cs ds
  | closure t, closure u => compareDigests report known t u (compareTop t u)
  | negation t, negation u => compareDigests report known t u (compareTop t u)
  | sequence t t', sequence u u' =>
      report.andThen (compareDigests report known t u (compareTop t u))
        (compareDigests report known t' u' (compareTop t' u'))
  | join op ts, join op' us =>
      if op = op' then compareMembers ts us else report.numbers op.tag.toNat op'.tag.toNat
  | t, u => report.numbers t.rank u.rank

/-- The report on two lists of members. -/
def compareMembers (ts us : List (Tree σ)) : α :=
  match ts, us with
  | [], [] => report.of .eq
  | [], _ :: _ => report.of .lt
  | _ :: _, [] => report.of .gt
  | t :: ts, u :: us =>
      report.andThen (compareDigests report known t u (compareTop t u)) (compareMembers ts us)

end

/-- The report on two trees: by digest, then by structure. -/
def compareBy (t u : Tree σ) : α :=
  compareDigests report known t u (compareTop report known t u)

end Tree

namespace Regex

variable {α : Type} (report : Report α) (known : Tree.Shortcut σ)

/-- The report on two regexes: by digest, then by structure. -/
def compareBy (r s : Regex σ) : α :=
  Tree.compareBy report known r.tree s.tree

/-- The report on the top nodes of two regexes, which leaves their digests out of account. -/
def compareTop (r s : Regex σ) : α :=
  Tree.compareTop report known r.tree s.tree

end Regex

end Residual
