import Residual.Automaton.Alphabet
import Residual.BuildError

/-!
# Deterministic finite automata

An automaton has states `0`, `1` and so on, of which `0` is the start state, and for every state
and every symbol of its alphabet exactly one successor. Symbols outside the alphabet have none, so
no word with such a symbol is accepted.
-/

namespace Residual

/-- A deterministic finite automaton over the symbols `σ`. -/
structure Dfa (σ : Type) [Symbol σ] where
  alphabet : Alphabet σ
  /-- The successors, state by state, in the order of the alphabet. -/
  targets : Array Nat
  /-- Whether each state accepts. Its size is the number of states. -/
  accepting : Array Bool
  /-- There is a start state. -/
  accepting_size_pos : 0 < accepting.size
  /-- Every state has a successor on every symbol. -/
  targets_size : targets.size = accepting.size * alphabet.size
  /-- Successors are states. -/
  target_lt : ∀ t ∈ targets, t < accepting.size

namespace Dfa

variable {σ : Type} [Symbol σ]

/-- The number of states. -/
def stateCount (d : Dfa σ) : Nat :=
  d.accepting.size

/-- The start state. -/
def start (_ : Dfa σ) : Nat :=
  0

/-- The successor of a state, if the symbol is in the alphabet. -/
def next (d : Dfa σ) (s : Nat) (c : σ) : Option Nat :=
  (d.alphabet.column? c).bind fun column => d.targets[s * d.alphabet.size + column]?

/-- The state accepts. -/
def accepts (d : Dfa σ) (s : Nat) : Bool :=
  d.accepting.getD s false

/-- The state that reading a word leads to, if all its symbols are in the alphabet. -/
def run (d : Dfa σ) (s : Nat) (w : List σ) : Option Nat :=
  w.foldlM d.next s

/-- Reading the word from the start state ends in an accepting state. -/
def isMatch (d : Dfa σ) (w : List σ) : Bool :=
  (d.run d.start w).any d.accepts

/-- The accepting states in increasing order. -/
def acceptingStates (d : Dfa σ) : List Nat :=
  (List.range d.stateCount).filter d.accepts

/-! ## Queries about any state number

State numbers are 64-bit words, and so are the addresses of entries in the transition table. A
number that is no state of the automaton has no row in the table: the address of an entry in it
would lie behind the table or not fit into a word.
-/

/-- A state number that is no state of an automaton. -/
structure NoSuchState where
  state : UInt64
  deriving DecidableEq

/-- Where the table has the successor of a state in a column, if the address fits into a word. -/
def address? (d : Dfa σ) (s : UInt64) (column : Nat) : Option UInt64 :=
  let address := s.toNat * d.alphabet.size + column
  if address < UInt64.size then some (UInt64.ofNat address) else none

/-- The successor of a state, if the symbol is in the alphabet. The symbol is looked at first. -/
def nextState (d : Dfa σ) (s : UInt64) (c : σ) : Except NoSuchState (Option Nat) :=
  match d.alphabet.column? c with
  | none => .ok none
  | some column =>
    match (d.address? s column).bind fun address => d.targets[address.toNat]? with
    | none => .error ⟨s⟩
    | some target => .ok (some target)

/-- The state accepts. -/
def isAccepting (d : Dfa σ) (s : UInt64) : Except NoSuchState Bool :=
  match d.accepting[s.toNat]? with
  | none => .error ⟨s⟩
  | some flag => .ok flag

/-! ## Automata from functions

An automaton is written down state by state. At first all transitions lead to the start state, and
no state accepts.
-/

theorem start_lt_replicate {count : Nat} (pos : 0 < count) :
    0 < (Array.replicate count false).size := by
  rwa [Array.size_replicate]

/-- The automaton with `count` states that never leaves the start state and accepts nothing. -/
def blank (alphabet : Alphabet σ) (count : Nat) (pos : 0 < count) : Dfa σ where
  alphabet := alphabet
  targets := Array.replicate (count * alphabet.size) 0
  accepting := Array.replicate count false
  accepting_size_pos := start_lt_replicate pos
  targets_size := by rw [Array.size_replicate, Array.size_replicate]
  target_lt t ht := by
    rw [(Array.mem_replicate.1 ht).2]
    exact start_lt_replicate pos

/-- The automaton with another successor of a state, for the symbol of a column. -/
def setTransition : (d : Dfa σ) → (s column target : Nat) → (isState : target < d.stateCount) →
    Dfa σ
  | ⟨alphabet, targets, accepting, pos, size, below⟩, s, column, target, isState =>
    { alphabet := alphabet
      targets := targets.setIfInBounds (s * alphabet.size + column) target
      accepting := accepting
      accepting_size_pos := pos
      targets_size := by rwa [Array.size_setIfInBounds]
      target_lt t ht := by
        rcases Array.mem_or_eq_of_mem_setIfInBounds ht with old | rfl
        · exact below t old
        · exact isState }

/-- The automaton with one more accepting state. -/
def setAccepting : (d : Dfa σ) → (s : Nat) → Dfa σ
  | ⟨alphabet, targets, accepting, pos, size, below⟩, s =>
    { alphabet := alphabet
      targets := targets
      accepting := accepting.setIfInBounds s true
      accepting_size_pos := by rwa [Array.size_setIfInBounds]
      targets_size := by rwa [Array.size_setIfInBounds]
      target_lt t ht := by rw [Array.size_setIfInBounds]; exact below t ht }

/-- Writes one transition of a state. It has to lead to a state. -/
def writeTransition (next : σ → Nat → Nat) (s : Nat) (d : Dfa σ) (entry : σ × Nat) :
    Except BuildError (Dfa σ) :=
  let target := next entry.1 s
  if isState : target < d.stateCount then .ok (d.setTransition s entry.2 target isState)
  else .error (.invalidState target d.stateCount)

/-- Writes the transitions of a state in the order of the alphabet. -/
def writeState (next : σ → Nat → Nat) (d : Dfa σ) (s : Nat) : Except BuildError (Dfa σ) :=
  d.alphabet.symbols.toList.zipIdx.foldlM (writeTransition next s) d

/-- Marks an accepting state. It has to be a state. -/
def writeAccepting (d : Dfa σ) (s : Nat) : Except BuildError (Dfa σ) :=
  if s < d.stateCount then .ok (d.setAccepting s) else .error (.invalidState s d.stateCount)

/-- The automaton with `count` states whose transitions are the values of `next`. Every target and
every accepting state has to be a state. -/
def ofFunction (symbols : List σ) (count : Nat) (next : σ → Nat → Nat) (accepting : List Nat) :
    Except BuildError (Dfa σ) :=
  if pos : 0 < count then do
    let d ← (List.range count).foldlM (writeState next) (blank (Alphabet.ofList symbols) count pos)
    accepting.foldlM writeAccepting d
  else .error (.invalidState 0 0)

/-! ## Bytes -/

/-- Every byte in increasing order. -/
def allBytes : List UInt8 :=
  (List.range 256).map UInt8.ofNat

/-- The smallest byte without transitions, if there is one. -/
def missingByte? (d : Dfa UInt8) : Option UInt8 :=
  allBytes.find? fun b => !d.alphabet.contains b

/-- Every byte has transitions. -/
def isByteComplete (d : Dfa UInt8) : Bool :=
  d.missingByte?.isNone

end Dfa

end Residual
