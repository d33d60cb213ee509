import Residual.Regex.Basic

/-!
# Regexes over another alphabet

A regex over one alphabet becomes a regex over another when every symbol is replaced by a word.
`substitute` replaces symbols and nothing else. `substituteWithin` is for codes whose words have
different lengths: there "any symbol" has to become "any code word", which is what `piece` matches,
and a complement has to stay among the sequences of code words.
-/

namespace Residual

variable {σ τ : Type} [Symbol σ] [Symbol τ]

/-- How the parts of a regex over `σ` become regexes over `τ`. -/
structure Substitution (σ τ : Type) [Symbol σ] [Symbol τ] where
  /-- The word of every symbol. -/
  code : σ → List τ
  /-- What stands for any symbol. -/
  anyone : Regex τ
  /-- What a complement is passed through. -/
  confine : Regex τ → Regex τ

namespace Substitution

mutual

/-- The regex that a tree becomes. -/
def apply (f : Substitution σ τ) (t : Tree σ) : Regex τ :=
  match t with
  | .single c => .word (f.code c)
  | .block cs => .word (cs.flatMap f.code)
  | .any => f.anyone
  | .fail => .fail
  | .closure t => (f.apply t).star
  | .negation t => f.confine (f.apply t).complement
  | .sequence t u => (f.apply t).andThen (f.apply u)
  | .join op members => .combine op (f.applyAll members)

/-- The regexes that the trees of a list become. -/
def applyAll (f : Substitution σ τ) (ts : List (Tree σ)) : List (Regex τ) :=
  match ts with
  | [] => []
  | t :: ts => f.apply t :: f.applyAll ts

end

theorem applyAll_eq_map (f : Substitution σ τ) (ts : List (Tree σ)) :
    f.applyAll ts = ts.map f.apply := by
  induction ts with
  | nil => rfl
  | cons t ts ih => exact congrArg (f.apply t :: ·) ih

section Nodes

variable (f : Substitution σ τ)

theorem apply_single (c : σ) : f.apply (.single c) = .word (f.code c) := rfl

theorem apply_block (cs : List σ) : f.apply (.block cs) = .word (cs.flatMap f.code) := rfl

theorem apply_any : f.apply .any = f.anyone := rfl

theorem apply_fail : f.apply .fail = .fail := rfl

theorem apply_closure (t : Tree σ) : f.apply (.closure t) = (f.apply t).star := rfl

theorem apply_negation (t : Tree σ) :
    f.apply (.negation t) = f.confine (f.apply t).complement := rfl

theorem apply_sequence (t u : Tree σ) :
    f.apply (.sequence t u) = (f.apply t).andThen (f.apply u) := rfl

theorem apply_join (op : Connective) (members : List (Tree σ)) :
    f.apply (.join op members) = .combine op (members.map f.apply) :=
  congrArg (Regex.combine op) (f.applyAll_eq_map members)

end Nodes

end Substitution

namespace Regex

/-- The regex with every symbol replaced by its word. -/
def substitute (r : Regex σ) (code : σ → List τ) : Regex τ :=
  Substitution.apply ⟨code, any, id⟩ r.tree

/-- The regex with every symbol replaced by its word, among the sequences of words of `piece`. -/
def substituteWithin (r : Regex σ) (code : σ → List τ) (piece : Regex τ) : Regex τ :=
  let pieces := piece.star
  Substitution.apply ⟨code, piece, fun s => s.and pieces⟩ r.tree

end Regex

end Residual
