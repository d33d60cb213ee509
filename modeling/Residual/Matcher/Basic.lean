import Residual.Matcher.Generic
import Residual.Matcher.Lookup
import Residual.Matcher.Permute

/-!
# Matchers

A `Matcher` decides whether an input matches as a whole. How it does so, its kind, depends on the
automaton it was built from, and its answers do not. A `TextMatcher` matches texts by their bytes in
UTF-8.
-/

namespace Residual

/-- How a matcher works. -/
inductive MatcherKind where
  | generic
  | lookup
  /-- Vectors of 16 lanes. -/
  | permute16
  /-- Vectors of 32 lanes. -/
  | permute32
  deriving DecidableEq

/-- The kind as it is shown for inspection. -/
def MatcherKind.name : MatcherKind → String
  | generic => "Generic"
  | lookup => "Lookup"
  | permute16 => "Permute16"
  | permute32 => "Permute32"

/-- A compiled regex over the symbols `σ`. -/
structure Matcher (σ : Type) where
  kind : MatcherKind
  /-- The number of states, if it is known. -/
  stateCount? : Option Nat
  /-- The whole input matches. -/
  accepts : List σ → Bool
  /-- What the matcher runs, for inspection. -/
  backend : Unit → Text.Outline

namespace Matcher

variable {σ : Type}

/-- The generic matcher as a matcher. -/
def ofGeneric (m : GenericMatcher σ) : Matcher σ where
  kind := .generic
  stateCount? := m.stateCount?
  accepts := m.accepts
  backend := fun _ => m.outline

/-- The table lookup matcher as a matcher. -/
def ofLookup (m : LookupMatcher) : Matcher UInt8 where
  kind := .lookup
  stateCount? := some m.stateCount
  accepts := m.accepts
  backend := fun _ => m.outline

/-- A permutation matcher as a matcher. -/
def ofPermute {lanes : FoldingLanes} (m : PermuteMatcher lanes) : Matcher UInt8 where
  kind := if lanes.width ≤ 16 then .permute16 else .permute32
  stateCount? := some m.stateCount
  accepts := m.accepts
  backend := fun _ => m.outline

/-- The matcher for inspection. -/
def outline (m : Matcher σ) : Text.Outline :=
  .apply "Matcher" [m.backend ()]

end Matcher

/-- A matcher of texts. -/
structure TextMatcher where
  /-- The matcher of the bytes of texts in UTF-8. -/
  bytes : Matcher UInt8

/-- The whole text matches. -/
def TextMatcher.accepts (m : TextMatcher) (text : String) : Bool :=
  m.bytes.accepts text.toUTF8.toList

end Residual
