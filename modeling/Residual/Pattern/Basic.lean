import Residual.Regex.Basic

/-!
# Patterns

A pattern is the syntax tree of a regex over characters in the usual notation: characters side by
side, `|` between alternatives, parentheses around groups, and `*`, `+` and `?` behind what they
repeat. A backslash makes the character after it stand for itself. `Pattern.text` writes a tree down
and `Pattern.regex` is its meaning.
-/

namespace Residual

/-- The operators that stand behind what they repeat. -/
inductive Repetition where
  | star
  | plus
  | optional
  deriving DecidableEq

/-- The character of a repetition operator. -/
def Repetition.char : Repetition → Char
  | star => '*'
  | plus => '+'
  | optional => '?'

/-- The operator that a character stands for, if any. -/
def Repetition.ofChar? : Char → Option Repetition
  | '*' => some star
  | '+' => some plus
  | '?' => some optional
  | _ => none

/-- The meaning of a repetition operator. -/
def Repetition.apply {σ : Type} [Symbol σ] : Repetition → Regex σ → Regex σ
  | star, r => r.star
  | plus, r => r.plus
  | optional, r => r.optional

/-- The syntax tree of a pattern. -/
inductive Pattern where
  /-- A character that stands for itself. -/
  | char (c : Char)
  /-- A character behind a backslash. -/
  | escaped (c : Char)
  /-- A pattern in parentheses. -/
  | group (p : Pattern)
  /-- An item and the operator behind it. -/
  | repeated (p : Pattern) (op : Repetition)
  /-- Items side by side. -/
  | items (ps : List Pattern)
  /-- Alternatives. -/
  | branches (ps : List Pattern)

namespace Pattern

/-- The characters that stand for something other than themselves. -/
def operators : List Char :=
  ['|', '(', ')', '*', '+', '?', '\\']

/-- The text of a pattern. -/
def text : Pattern → List Char
  | char c => [c]
  | escaped c => ['\\', c]
  | group p => ['('] ++ p.text ++ [')']
  | repeated p op => p.text ++ [op.char]
  | items ps => ps.flatMap fun p => p.text
  | branches ps => ['|'].intercalate (ps.map fun p => p.text)

/-- The regex that a pattern stands for. -/
def regex : Pattern → Regex Char
  | char c => .single c
  | escaped c => .single c
  | group p => p.regex
  | repeated p op => op.apply p.regex
  | items ps => .concat (ps.map fun p => p.regex)
  | branches ps => .alternation (ps.map fun p => p.regex)

end Pattern

end Residual
