import Residual.Automaton.Dfa
import Residual.Text.Outline

/-!
# The generic matcher

A matcher for any symbols and any number of states. It follows a transition function one symbol at a
time and then looks whether the last state accepts.
-/

namespace Residual

/-- A transition function with a start state and accepting states. -/
structure GenericMatcher (σ : Type) where
  /-- The successor of a state. Without one, the input is rejected. -/
  next : σ → Nat → Option Nat
  start : Nat
  accepting : List Nat
  /-- The number of states, if it is known. -/
  stateCount? : Option Nat

namespace GenericMatcher

variable {σ : Type}

/-- The matcher that runs an automaton. -/
def ofDfa [Symbol σ] (d : Dfa σ) : GenericMatcher σ where
  next c s := d.next s c
  start := d.start
  accepting := d.acceptingStates
  stateCount? := some d.stateCount

/-- The matcher that follows a function. -/
def ofFunction (start : Nat) (next : σ → Nat → Option Nat) (accepting : List Nat) :
    GenericMatcher σ where
  next := next
  start := start
  accepting := accepting
  stateCount? := none

/-- The matcher accepts the whole input. -/
def accepts (m : GenericMatcher σ) (input : List σ) : Bool :=
  (input.foldlM (fun s c => m.next c s) m.start).any m.accepting.contains

/-- The matcher for inspection. -/
def outline (m : GenericMatcher σ) : Text.Outline :=
  .record "GenericMatcher" [
    .field "start" (.nat m.start),
    .field "accepting" (.set (m.accepting.map .nat)),
    .field "state_len" (.option .nat m.stateCount?)]

end GenericMatcher

end Residual
