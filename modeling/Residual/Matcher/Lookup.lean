import Residual.Automaton.Dfa
import Residual.Text.Outline

/-!
# The table lookup matcher

A matcher for byte automata with at most 256 states, so that a byte can number them. It looks up the
next state in one table, where the successors of all states on one byte stand side by side.
-/

namespace Residual

/-- A transition table of bytes. -/
structure LookupMatcher where
  /-- The successor of state `s` on byte `b` is at `b * stateCount + s`. -/
  table : Array UInt8
  stateCount : Nat
  start : UInt8
  accepting : List UInt8

namespace LookupMatcher

/-- The largest number of states. -/
def capacity : Nat := 256

/-- The successor of a state on a byte, as an entry of the table. -/
def entry (d : Dfa UInt8) (b : UInt8) (s : Nat) : Except BuildError UInt8 :=
  match d.next s b with
  | none => .error (.incompleteAlphabet b)
  | some t => .ok (UInt8.ofNat t)

/-- The rows of the table: for every byte in turn, the successors of all states. -/
def rows (d : Dfa UInt8) : Except BuildError (List (List UInt8)) :=
  Dfa.allBytes.mapM fun b => (List.range d.stateCount).mapM (entry d b)

/-- The matcher that runs an automaton. The automaton must not have too many states and must have
transitions for every byte. -/
def ofDfa (d : Dfa UInt8) : Except BuildError LookupMatcher :=
  if capacity < d.stateCount then .error (.capacity "lookup" capacity d.stateCount)
  else do
    let rows ← rows d
    return {
      table := rows.flatten.toArray
      stateCount := d.stateCount
      start := UInt8.ofNat d.start
      accepting := d.acceptingStates.map UInt8.ofNat }

/-- The successor of a state. Within the table there always is one. -/
def next (m : LookupMatcher) (s b : UInt8) : Option UInt8 :=
  m.table[b.toNat * m.stateCount + s.toNat]?

/-- The matcher accepts the whole input. -/
def accepts (m : LookupMatcher) (input : List UInt8) : Bool :=
  (input.foldlM m.next m.start).any m.accepting.contains

/-- The matcher for inspection. -/
def outline (m : LookupMatcher) : Text.Outline :=
  .record "LookupMatcher" [
    .field "table" (.list (m.table.toList.map fun b => .nat b.toNat)),
    .field "state_len" (.nat m.stateCount),
    .field "start" (.nat m.start.toNat),
    .field "accepting" (.list (m.accepting.map fun b => .nat b.toNat))]

end LookupMatcher

end Residual
