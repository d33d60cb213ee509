import Residual.Text.Outline

/-!
# Settings

How regexes are compiled. A setting that was never made has its default, and one `Config` can be
laid over another: settings made in the upper one hide those below.
-/

namespace Residual

/-- The settings that were made. -/
structure Config where
  /-- Whether matchers for special kinds of automata may be chosen. -/
  optimize? : Option Bool := none
  /-- Whether matchers with vectors may be chosen. -/
  vectorize? : Option Bool := none
  /-- How many states an automaton may have, if there is a limit. -/
  stateLimit? : Option (Option Nat) := none
  deriving DecidableEq

namespace Config

/-- Matchers for special kinds of automata may be chosen, unless this was turned off. -/
def optimize (config : Config) : Bool :=
  config.optimize?.getD true

/-- Matchers with vectors may be chosen, unless this was turned off. -/
def vectorize (config : Config) : Bool :=
  config.vectorize?.getD true

/-- How many states an automaton may have. There is no limit unless one was set. -/
def stateLimit (config : Config) : Option Nat :=
  config.stateLimit?.getD none

/-- The settings of `upper`, and those of `lower` that `upper` does not make. -/
def overlay (lower upper : Config) : Config where
  optimize? := upper.optimize?.or lower.optimize?
  vectorize? := upper.vectorize?.or lower.vectorize?
  stateLimit? := upper.stateLimit?.or lower.stateLimit?

/-- The settings for inspection. -/
def outline (config : Config) : Text.Outline :=
  .record "Config" [
    .field "optimize" (.option .bool config.optimize?),
    .field "vectorize" (.option .bool config.vectorize?),
    .field "state_limit" (.option (.option .nat) config.stateLimit?)]

end Config

end Residual
