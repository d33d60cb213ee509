import Residual.Automaton.Dfa
import Residual.Lanes.Folding
import Residual.Text.Outline

/-!
# The permutation matcher

A matcher for byte automata with at most as many states as a vector has lanes. For every byte there
is a vector whose lane `s` holds the state that state `s` leads to, and reading an input composes
the vectors of its bytes by shuffling.
-/

namespace Residual

/-- Transitions as vectors of lanes. -/
structure PermuteMatcher (lanes : FoldingLanes) where
  /-- A vector for every byte. Lanes that are no states hold zero. -/
  table : lanes.Table
  start : UInt8
  accepting : List UInt8
  stateCount : Nat

namespace PermuteMatcher

variable {lanes : FoldingLanes}

/-- The vector of a byte. -/
def rowOf (lanes : FoldingLanes) (d : Dfa UInt8) (b : UInt8) : lanes.Row :=
  Vector.ofFn fun s => if s < d.stateCount then UInt8.ofNat ((d.next s b).getD 0) else 0

/-- The matcher that runs an automaton. The automaton must not have too many states and must have
transitions for every byte. -/
def ofDfa (lanes : FoldingLanes) (d : Dfa UInt8) : Except BuildError (PermuteMatcher lanes) :=
  if lanes.width < d.stateCount then .error (.capacity lanes.name lanes.width d.stateCount)
  else
    match d.missingByte? with
    | some missing => .error (.incompleteAlphabet missing)
    | none => .ok
        { table := Vector.ofFn fun b => rowOf lanes d (UInt8.ofNat b)
          start := UInt8.ofNat d.start
          accepting := d.acceptingStates.map UInt8.ofNat
          stateCount := d.stateCount }

/-- The state that the input leads to from the start state. -/
def finalState (m : PermuteMatcher lanes) (input : List UInt8) : UInt8 :=
  lanes.fold m.table input m.start

/-- The state that the input leads to from the start state, one byte at a time. -/
def finalStateOneByOne (m : PermuteMatcher lanes) (input : List UInt8) : UInt8 :=
  lanes.foldStepwise m.table input m.start

/-- The matcher accepts the whole input. -/
def accepts (m : PermuteMatcher lanes) (input : List UInt8) : Bool :=
  m.accepting.contains (m.finalState input)

/-- The matcher for inspection. -/
def outline (m : PermuteMatcher lanes) : Text.Outline :=
  .record "PermuteMatcher" [
    .field "lanes" (.text lanes.name),
    .field "width" (.nat lanes.width),
    .field "state_len" (.nat m.stateCount),
    .field "start" (.nat m.start.toNat),
    .field "accepting" (.list (m.accepting.map fun b => .nat b.toNat))]

end PermuteMatcher

end Residual
