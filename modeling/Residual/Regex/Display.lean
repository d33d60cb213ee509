import Residual.Regex.Basic
import Residual.Text.Outline

/-!
# Written regexes

A regex is written with `|` between the members of a union, `&` between those of an intersection,
sequences side by side, `!` before a complement and `*` behind a closure. `.` is any symbol, `[]` is
`fail` and `()` is `epsilon`. Parentheses stand where a part binds more loosely than its place
demands. `display` is that text, and `outline` is the tree itself.
-/

namespace Residual

variable {σ : Type} [Symbol σ]

/-- The character between the members of a join. -/
def Connective.char : Connective → Char
  | or => '|'
  | and => '&'

/-- The name of a connective. -/
def Connective.name : Connective → String
  | or => "Or"
  | and => "And"

/-- How tightly members hold together. Unions are the loosest. -/
def Connective.binding : Connective → Nat
  | or => 0
  | and => 1

namespace Tree

/-- How tightly the text of a tree holds together. Behind unions and intersections come sequences,
complements and closures; 5 never needs parentheses. -/
def binding : Tree σ → Nat
  | single _ => 5
  | block _ => 2
  | any => 5
  | fail => 5
  | closure t => if t.isFail then 5 else 4
  | negation _ => 3
  | sequence _ _ => 2
  | join op _ => op.binding

/-- A text in a place for texts that bind at least as tightly as `least`. -/
def parenthesize (least actual : Nat) (text : List Char) : List Char :=
  if actual < least then ['('] ++ text ++ [')'] else text

mutual

/-- The text of a tree, without parentheses around the whole. -/
def text (t : Tree σ) : List Char :=
  match t with
  | single c => Symbol.text c
  | block cs => cs.flatMap Symbol.text
  | any => ['.']
  | fail => ['[', ']']
  | closure t => if t.isFail then ['(', ')'] else parenthesize 5 t.binding t.text ++ ['*']
  | negation t => ['!'] ++ parenthesize 3 t.binding t.text
  | sequence t u => parenthesize 2 t.binding t.text ++ parenthesize 2 u.binding u.text
  | join op members => [op.char].intercalate (memberTexts (op.binding + 1) members)

/-- The texts of trees in places for texts that bind at least as tightly as `least`. -/
def memberTexts (least : Nat) (ts : List (Tree σ)) : List (List Char) :=
  match ts with
  | [] => []
  | t :: ts => parenthesize least t.binding t.text :: memberTexts least ts

end

theorem memberTexts_eq_map (least : Nat) (ts : List (Tree σ)) :
    memberTexts least ts = ts.map fun t => parenthesize least t.binding t.text := by
  induction ts with
  | nil => rw [memberTexts]; rfl
  | cons t ts ih => rw [memberTexts, ih]; rfl

/-- A symbol as it is shown for inspection. -/
def symbolOutline (c : σ) : Text.Outline :=
  .atom (String.ofList (Symbol.quoted c))

mutual

/-- The shape of a tree. -/
def outline (t : Tree σ) : Text.Outline :=
  match t with
  | single c => .apply "Single" [symbolOutline c]
  | block cs => .apply "Block" [.list (cs.map symbolOutline)]
  | any => .atom "Any"
  | fail => .atom "Fail"
  | closure t => .apply "Star" [t.outline]
  | negation t => .apply "Not" [t.outline]
  | sequence t u => .apply "Seq" [t.outline, u.outline]
  | join op members => .apply op.name [.list (memberOutlines members)]

/-- The shapes of the trees of a list. -/
def memberOutlines (ts : List (Tree σ)) : List Text.Outline :=
  match ts with
  | [] => []
  | t :: ts => t.outline :: memberOutlines ts

end

end Tree

/-- The text of a regex. -/
def Regex.display (r : Regex σ) : String :=
  String.ofList r.tree.text

/-- The tree of a regex for inspection. -/
def Regex.outline (r : Regex σ) : Text.Outline :=
  r.tree.outline

end Residual
