import Residual.Pattern.Basic

/-!
# Reading patterns

`Pattern.parse` reads a text from left to right, one character (or one escape) at a time. What it
has read of every group that is still open is kept in a `Level`: the alternatives that are complete,
and the items of the one being read. Offsets in errors count the bytes of the text in UTF-8.
-/

namespace Residual

/-- Why a text is no pattern. -/
inductive SyntaxError.Cause where
  /-- There is nothing in the text. -/
  | emptyPattern
  /-- There is nothing in a group. -/
  | emptyGroup
  /-- There is nothing between two bars, or between a bar and an end. -/
  | emptyBranch
  /-- There is nothing to repeat before a repetition operator. -/
  | nothingToRepeat
  /-- A group is never closed. -/
  | unclosedGroup
  /-- A parenthesis closes a group that was never opened. -/
  | unopenedGroup
  /-- A backslash ends the text. -/
  | danglingEscape
  deriving DecidableEq

/-- Why, and at which byte, a text is no pattern. -/
structure SyntaxError where
  cause : SyntaxError.Cause
  offset : Nat
  deriving DecidableEq

/-- The cause in words. -/
def SyntaxError.Cause.message : SyntaxError.Cause → String
  | emptyPattern => "empty pattern"
  | emptyGroup => "empty group"
  | emptyBranch => "alternation branch must not be empty"
  | nothingToRepeat => "repetition operator missing expression"
  | unclosedGroup => "unclosed group"
  | unopenedGroup => "unopened group"
  | danglingEscape => "incomplete escape sequence"

/-- The error in words. -/
def SyntaxError.message (e : SyntaxError) : String :=
  "regex parse error at offset " ++ toString e.offset ++ ": " ++ e.cause.message

namespace Pattern

/-- What has been read between a parenthesis, or the start of the text, and where reading stands:
the complete alternatives and the items of the next one, each the latest first. -/
structure Level where
  branches : List Pattern
  items : List Pattern

namespace Level

/-- Nothing has been read. -/
def empty : Level := ⟨[], []⟩

/-- The level after one more item. -/
def push (level : Level) (p : Pattern) : Level :=
  { level with items := p :: level.items }

/-- The pattern that the level holds once it ends at `offset`. There is none if nothing was read. -/
def finish (level : Level) (offset : Nat) : Except SyntaxError (Option Pattern) :=
  match level.items, level.branches with
  | [], [] => .ok none
  | [], _ :: _ => .error ⟨.emptyBranch, offset⟩
  | latest, complete => .ok (some (.branches (.items latest.reverse :: complete).reverse))

end Level

/-- A group that is still open: the byte offset of its parenthesis and the level around it. -/
structure OpenGroup where
  offset : Nat
  outer : Level

/-- Reads the rest of a text, given the byte offset where it starts, the level being read and the
open groups around it, the innermost first. -/
def read (offset : Nat) (level : Level) (groups : List OpenGroup) :
    List Char → Except SyntaxError Pattern
  | [] => do
      match ← level.finish offset, groups with
      | _, opened :: _ => .error ⟨.unclosedGroup, opened.offset⟩
      | none, [] => .error ⟨.emptyPattern, 0⟩
      | some p, [] => .ok p
  | '|' :: rest =>
      match level.items with
      | [] => .error ⟨.emptyBranch, offset⟩
      | latest => read (offset + 1) ⟨.items latest.reverse :: level.branches, []⟩ groups rest
  | '(' :: rest => read (offset + 1) .empty (⟨offset, level⟩ :: groups) rest
  | ')' :: rest => do
      match ← level.finish offset, groups with
      | _, [] => .error ⟨.unopenedGroup, offset⟩
      | none, opened :: _ => .error ⟨.emptyGroup, opened.offset⟩
      | some p, opened :: around => read (offset + 1) (opened.outer.push (.group p)) around rest
  | ['\\'] => .error ⟨.danglingEscape, offset⟩
  | '\\' :: c :: rest => read (offset + 1 + c.utf8Size) (level.push (.escaped c)) groups rest
  | c :: rest =>
      match Repetition.ofChar? c with
      | none => read (offset + c.utf8Size) (level.push (.char c)) groups rest
      | some op =>
        match level.items with
        | [] => .error ⟨.nothingToRepeat, offset⟩
        | p :: before => read (offset + 1) ⟨level.branches, .repeated p op :: before⟩ groups rest

/-- The pattern that a text is. -/
def parse (text : List Char) : Except SyntaxError Pattern :=
  read 0 .empty [] text

end Pattern

/-- The regex that a text stands for as a pattern. -/
def Regex.parse (text : String) : Except SyntaxError (Regex Char) :=
  (Pattern.parse text.toList).map Pattern.regex

end Residual
