import Residual.Automaton.Exploration
import Residual.Encoding
import Residual.Matcher.Selection

/-!
# Building matchers

A `Builder` compiles regexes into automata and automata into matchers, under settings that can be
changed between one build and the next.
-/

namespace Residual

/-- The automaton of a regex over the symbols of an alphabet, with at most as many states as the
settings allow. -/
def Dfa.compile {σ : Type} [Symbol σ] (config : Config) (r : Regex σ) (symbols : List σ) :
    Logged σ (Dfa σ) :=
  let alphabet := Alphabet.ofList symbols
  let discoveries (found : Array (Regex σ)) : List (Event σ) :=
    found.toList.mapIdx fun s r => .discovered s r
  match Exploration.ofRegex config.stateLimit alphabet.symbols.toList r with
  | .error found => ⟨discoveries found, .error (.tooManyStates (config.stateLimit.getD 0))⟩
  | .ok ⟨e, complete⟩ =>
    ⟨discoveries e.found ++ [.compiled e.found.size alphabet.size], .ok (e.toDfa alphabet complete)⟩

/-- The automaton of a regex over the symbols of an alphabet. -/
def Dfa.ofRegex {σ : Type} [Symbol σ] (r : Regex σ) (symbols : List σ) : Logged σ (Dfa σ) :=
  Dfa.compile {} r symbols

/-- Settings for building. -/
structure Builder where
  config : Config := {}

namespace Builder

variable {σ : Type} [Symbol σ] [Specialized σ]

/-- The builder with further settings, which replace the same ones made before. -/
def configure (b : Builder) (config : Config) : Builder :=
  ⟨b.config.overlay config⟩

/-- Compiles a regex over the symbols of an alphabet. -/
def buildDfa (b : Builder) (r : Regex σ) (symbols : List σ) : Logged σ (Dfa σ) :=
  Dfa.compile b.config r symbols

/-- Chooses a matcher for an automaton. -/
def buildFromDfa (b : Builder) (d : Dfa σ) : Logged σ (Matcher σ) :=
  d.matcher b.config

/-- Builds the matcher of a regex over the symbols of an alphabet. -/
def build (b : Builder) (r : Regex σ) (symbols : List σ) : Logged σ (Matcher σ) := do
  b.buildFromDfa (← b.buildDfa r symbols)

/-- Builds the matcher of a regex over all bytes. -/
def buildBytes (b : Builder) (r : Regex UInt8) : Logged UInt8 (Matcher UInt8) :=
  b.build r Dfa.allBytes

/-- Builds a matcher of encoded texts from a regex over characters. -/
def buildEncoded (b : Builder) (r : Regex Char) (e : Encoding) : Logged UInt8 (Matcher UInt8) :=
  b.buildBytes (r.encode e)

/-- Builds a matcher of texts from a regex over characters. -/
def buildText (b : Builder) (r : Regex Char) : Logged UInt8 TextMatcher := do
  return ⟨← b.buildEncoded r .utf8⟩

/-- The builder for inspection. -/
def outline (b : Builder) : Text.Outline :=
  .record "Builder" [.field "config" b.config.outline]

end Builder

/-- The matcher of a regex over the symbols of an alphabet, under default settings. -/
def Matcher.ofRegex {σ : Type} [Symbol σ] [Specialized σ] (r : Regex σ) (symbols : List σ) :
    Logged σ (Matcher σ) :=
  ({} : Builder).build r symbols

/-- The matcher of texts of a regex over characters, under default settings. -/
def TextMatcher.ofRegex (r : Regex Char) : Logged UInt8 TextMatcher :=
  ({} : Builder).buildText r

end Residual
