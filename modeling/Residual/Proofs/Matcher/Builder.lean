import Residual.Proofs.Matcher.Compile
import Residual.Proofs.Matcher.Selection

/-!
# Built matchers decide as their regexes do

A build compiles an automaton and chooses a matcher for it (`build_of_buildDfa`,
`buildDfa_of_build`). `Builder.Faithful` says what both of them have to do with the regex, and
`Builder.faithful` follows a word through them.
-/

namespace Residual

namespace Builder

variable {σ : Type} [Symbol σ] [Specialized σ] [LawfulSpecialized σ]
  {b : Builder} {r : Regex σ} {symbols : List σ}

/-- Where there is an automaton there is a matcher that runs it. -/
theorem build_of_buildDfa {d : Dfa σ} (compiled : (b.buildDfa r symbols).result = .ok d) :
    ∃ m, (b.build r symbols).result = .ok m ∧ m.Runs d := by
  obtain ⟨m, made, runs⟩ := d.exists_matcher b.config
  refine ⟨m, ?_, runs⟩
  rw [build, Logged.result_bind_of_ok compiled]
  exact made

/-- Where there is a matcher there is the automaton that it runs. -/
theorem buildDfa_of_build {m : Matcher σ} (built : (b.build r symbols).result = .ok m) :
    ∃ d, (b.buildDfa r symbols).result = .ok d ∧ m.Runs d := by
  cases compiled : (b.buildDfa r symbols).result with
  | error e =>
      rw [build, Logged.result_bind, compiled] at built
      cases built
  | ok d =>
      obtain ⟨m', built', runs⟩ := build_of_buildDfa compiled
      obtain rfl := Except.ok.inj (built.symm.trans built')
      exact ⟨d, rfl, runs⟩

/-- A matcher decides words over its alphabet as the regex does. -/
theorem accepts_build {m : Matcher σ} (built : (b.build r symbols).result = .ok m) {w : List σ}
    (hw : ∀ c ∈ w, c ∈ symbols) : m.accepts w = r.accepts w := by
  obtain ⟨d, compiled, runs⟩ := buildDfa_of_build built
  rw [runs.accepts, Dfa.isMatch_compile compiled hw]

end Builder

/-- Under the settings of the builder, every automaton over these symbols has a matcher. Both decide
words over the alphabet as the regex does, and reject all others. -/
def Builder.Faithful (b : Builder) (σ : Type) [Symbol σ] [Specialized σ] : Prop :=
  ∀ (r : Regex σ) (symbols : List σ) (d : Dfa σ), (b.buildDfa r symbols).result = .ok d →
    ∃ m, (b.build r symbols).result = .ok m ∧ ∀ w,
      ((∀ c ∈ w, c ∈ symbols) → d.isMatch w = r.accepts w ∧ m.accepts w = r.accepts w) ∧
      ((∃ c ∈ w, c ∉ symbols) → d.isMatch w = false ∧ m.accepts w = false)

theorem Builder.faithful (b : Builder) (σ : Type) [Symbol σ] [Specialized σ]
    [LawfulSpecialized σ] : b.Faithful σ := by
  intro r symbols d compiled
  obtain ⟨m, built, runs⟩ := build_of_buildDfa compiled
  refine ⟨m, built, ?_⟩
  intro w
  constructor
  · intro inside
    have same := Dfa.isMatch_compile compiled inside
    exact ⟨same, by rw [runs.accepts, same]⟩
  · intro outside
    have rejects := Dfa.isMatch_compile_outside compiled outside
    exact ⟨rejects, by rw [runs.accepts, rejects]⟩

end Residual
