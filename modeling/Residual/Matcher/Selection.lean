import Residual.Config
import Residual.Event
import Residual.Matcher.Basic

/-!
# Choosing a matcher

Which matcher runs an automaton. Byte automata with transitions for every byte are run by the
narrowest vectors that have a lane for every state, or by table lookup if a byte can number their
states. Everything else is run by the generic matcher. Settings can turn the special matchers off.
-/

namespace Residual

/-- Symbols whose automata may have a matcher of their own. -/
class Specialized (σ : Type) [Symbol σ] where
  /-- The special matcher of an automaton, if there is one that fits. -/
  specialize : Config → Dfa σ → Logged σ (Option (Matcher σ))

namespace Selection

/-- The permutation matcher of an automaton, if there are enough lanes. -/
def tryLanes (lanes : Lanes) (d : Dfa UInt8) : Logged UInt8 (Option (Matcher UInt8)) :=
  if lanes.width < d.stateCount then do
    Logged.log (.lanesSkipped lanes d.stateCount)
    return none
  else do
    let m ← Logged.ofResult (PermuteMatcher.ofDfa lanes d)
    Logged.log (.usingLanes lanes d.stateCount)
    return some (.ofPermute m)

/-- The permutation matcher of an automaton with as few lanes as possible. -/
def tryVectors (d : Dfa UInt8) : Logged UInt8 (Option (Matcher UInt8)) := do
  match ← tryLanes .ssse3 d with
  | some m => return some m
  | none => tryLanes .avx2 d

/-- The table lookup matcher of an automaton, if a byte can number its states. -/
def tryLookup (d : Dfa UInt8) : Logged UInt8 (Option (Matcher UInt8)) :=
  if d.stateCount ≤ LookupMatcher.capacity then do
    Logged.log (.usingLookup d.stateCount)
    let m ← Logged.ofResult (LookupMatcher.ofDfa d)
    return some (.ofLookup m)
  else do
    Logged.log (.bytesSkipped d.stateCount)
    return none

/-- The special matcher of a byte automaton, if there is one that fits. -/
def specializeBytes (config : Config) (d : Dfa UInt8) : Logged UInt8 (Option (Matcher UInt8)) :=
  if !d.isByteComplete then do
    Logged.log .bytesMissing
    return none
  else if config.vectorize then do
    match ← tryVectors d with
    | some m => return some m
    | none => tryLookup d
  else do
    Logged.log .vectorizeOff
    tryLookup d

/-- The generic matcher of an automaton. -/
def useGeneric {σ : Type} [Symbol σ] (d : Dfa σ) : Logged σ (Matcher σ) := do
  Logged.log (.usingGeneric d.stateCount)
  return .ofGeneric (.ofDfa d)

end Selection

instance : Specialized UInt8 := ⟨Selection.specializeBytes⟩

instance : Specialized UInt16 := ⟨fun _ _ => pure none⟩

instance : Specialized UInt32 := ⟨fun _ _ => pure none⟩

instance : Specialized Char := ⟨fun _ _ => pure none⟩

/-- The matcher that runs an automaton. -/
def Dfa.matcher {σ : Type} [Symbol σ] [Specialized σ] (d : Dfa σ) (config : Config) :
    Logged σ (Matcher σ) :=
  if config.optimize then do
    match ← Specialized.specialize config d with
    | some m => return m
    | none => Selection.useGeneric d
  else do
    Logged.log .optimizeOff
    Selection.useGeneric d

end Residual
