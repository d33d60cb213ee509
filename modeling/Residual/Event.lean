import Residual.BuildError
import Residual.Lanes
import Residual.Regex.Display

/-!
# Events of building

What happens while an automaton is compiled and a matcher is chosen, in order. `Logged σ α` is the
result of such work together with its events; work that fails keeps the events that came before.
-/

namespace Residual

/-- Something that happened while building over the symbols `σ`. -/
inductive Event (σ : Type) [Symbol σ] where
  /-- A new state stands for a derivative. -/
  | discovered (state : Nat) (r : Regex σ)
  /-- An automaton is complete. -/
  | compiled (states symbols : Nat)
  /-- Special matchers are turned off. -/
  | optimizeOff
  /-- Some bytes have no transitions, so no byte matcher fits. -/
  | bytesMissing
  /-- Matchers with vectors are turned off. -/
  | vectorizeOff
  /-- There are more states than lanes. -/
  | lanesSkipped (lanes : Lanes) (states : Nat)
  /-- There are more states than a byte can number. -/
  | bytesSkipped (states : Nat)
  /-- A matcher with vectors was chosen. -/
  | usingLanes (lanes : Lanes) (states : Nat)
  /-- The table lookup matcher was chosen. -/
  | usingLookup (states : Nat)
  /-- The generic matcher was chosen. -/
  | usingGeneric (states : Nat)

/-- How much an event matters. -/
inductive Event.Level where
  | trace
  | debug
  deriving DecidableEq

/-- The name of a level. -/
def Event.Level.name : Event.Level → String
  | trace => "TRACE"
  | debug => "DEBUG"

namespace Event

variable {σ : Type} [Symbol σ]

/-- Single steps and what was turned off are traced, outcomes are for debugging. -/
def level : Event σ → Level
  | discovered _ _ => .trace
  | compiled _ _ => .debug
  | optimizeOff => .trace
  | bytesMissing => .debug
  | vectorizeOff => .trace
  | lanesSkipped _ _ => .trace
  | bytesSkipped _ => .debug
  | usingLanes _ _ => .debug
  | usingLookup _ => .debug
  | usingGeneric _ => .debug

/-- A kind of vector by its width and name. -/
def lanesName (lanes : Lanes) : String :=
  toString lanes.width ++ "-lane " ++ lanes.name

/-- The event in words. -/
def message : Event σ → String
  | discovered state r => "DFA state " ++ toString state ++ " is " ++ r.display
  | compiled states symbols =>
      "compiled DFA with " ++ toString states ++ " states over " ++ toString symbols ++ " symbols"
  | optimizeOff => "specialized matchers disabled"
  | bytesMissing => "byte matchers skipped: DFA lacks transitions for some bytes"
  | vectorizeOff => "vector matchers disabled"
  | lanesSkipped lanes states =>
      lanesName lanes ++ " matcher skipped: " ++ toString states ++ " states"
  | bytesSkipped states => "byte matchers skipped: " ++ toString states ++ " states"
  | usingLanes lanes states =>
      "using " ++ lanesName lanes ++ " matcher with " ++ toString states ++ " states"
  | usingLookup states => "using lookup matcher with " ++ toString states ++ " states"
  | usingGeneric states => "using generic matcher with " ++ toString states ++ " states"

/-- The level and the event in words. -/
def line (event : Event σ) : String :=
  event.level.name ++ " " ++ event.message

end Event

/-- The result of building something over the symbols `σ`, and the events on the way to it. -/
structure Logged (σ : Type) [Symbol σ] (α : Type) where
  events : List (Event σ)
  result : Except BuildError α

namespace Logged

variable {σ : Type} [Symbol σ] {α β : Type}

/-- A result without events. -/
def ofResult (result : Except BuildError α) : Logged σ α :=
  ⟨[], result⟩

/-- One event. -/
def log (event : Event σ) : Logged σ Unit :=
  ⟨[event], .ok ()⟩

/-- Work that depends on a result. It is not done if there is none. -/
def andThen (work : Logged σ α) (next : α → Logged σ β) : Logged σ β :=
  match work.result with
  | .error e => ⟨work.events, .error e⟩
  | .ok a => ⟨work.events ++ (next a).events, (next a).result⟩

instance : Monad (Logged σ) where
  pure a := ofResult (.ok a)
  bind := andThen

end Logged

end Residual
