import Residual.Text.Escape

/-!
# Errors of building

Everything that can go wrong before there is an automaton or a matcher. Matching itself never fails.
-/

namespace Residual

/-- Why an automaton or a matcher could not be built. -/
inductive BuildError where
  /-- A regex has more derivatives than the automaton may have states. -/
  | tooManyStates (limit : Nat)
  /-- The automaton has more states than the named matcher can tell apart. -/
  | capacity (matcher : String) (limit given : Nat)
  /-- The automaton has no transitions for a byte. -/
  | incompleteAlphabet (missing : UInt8)
  /-- A state is named that an automaton with `count` states does not have. -/
  | invalidState (state count : Nat)
  deriving DecidableEq

/-- The error in words. -/
def BuildError.message : BuildError → String
  | tooManyStates limit => "number of DFA states exceeds limit of " ++ toString limit
  | capacity matcher limit given =>
      matcher ++ " matcher supports at most " ++ toString limit ++ " states, but the DFA has " ++
        toString given
  | incompleteAlphabet missing =>
      "byte matchers need a transition for every byte, but the DFA has none for " ++
        String.ofList (Text.escapeByte missing)
  | invalidState state count =>
      "state " ++ toString state ++ " does not exist in a DFA with " ++ toString count ++ " states"

end Residual
