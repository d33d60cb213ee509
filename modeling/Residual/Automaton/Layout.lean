import Residual.Automaton.Dfa

/-!
# Automata as text

`Dfa.layout` lists an automaton state by state for inspection: a star before accepting states, an
arrow before the start state, the number of the state in six digits, and its transitions in the
order of the alphabet.
-/

namespace Residual.Dfa

variable {σ : Type} [Symbol σ]

/-- A number in decimal, filled up with zeros to six digits. -/
def sixDigits (n : Nat) : String :=
  let digits := toString n
  String.ofList (List.replicate (6 - digits.length) '0') ++ digits

/-- One transition. -/
def transitionText (c : σ) (target : Nat) : String :=
  String.ofList (Symbol.quoted c) ++ " => " ++ toString target

/-- The line of one state. -/
def stateLine (d : Dfa σ) (s : Nat) : String :=
  let mark := if d.accepts s then "*" else " "
  let arrow := if s = d.start then ">" else " "
  let first := s * d.alphabet.size
  let row := (d.targets.extract first (first + d.alphabet.size)).toList
  mark ++ arrow ++ sixDigits s ++ ": " ++
    ", ".intercalate (d.alphabet.symbols.toList.zipWith transitionText row) ++ "\n"

/-- The automaton, one line for each state. -/
def layout (d : Dfa σ) : String :=
  "dfa::DFA(\n" ++ String.join ((List.range d.stateCount).map d.stateLine) ++ ")\n"

end Residual.Dfa
