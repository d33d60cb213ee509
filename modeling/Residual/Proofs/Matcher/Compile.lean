import Residual.Matcher.Builder
import Residual.Proofs.Automaton.Exploration

/-!
# Compiled automata

An automaton that was compiled from a regex has a state for every derivative by a word over the
alphabet (`stateCount_compile`) and decides the words over the alphabet as the regex does
(`isMatch_compile`, `isMatch_compile_outside`). There are finitely many such derivatives
(`finite_residuals`), so that without a limit there always is an automaton (`compile_unlimited`).
-/

namespace Residual

variable {σ : Type} [Symbol σ]

/-- Only the symbols of an alphabet matter, neither their order nor repetitions. -/
theorem Regex.residuals_congr (root : Regex σ) {symbols others : List σ}
    (same : ∀ c, c ∈ symbols ↔ c ∈ others) : root.residuals symbols = root.residuals others := by
  ext r
  constructor
  · rintro ⟨w, hw, rfl⟩
    exact ⟨w, fun c hc => (same c).mp (hw c hc), rfl⟩
  · rintro ⟨w, hw, rfl⟩
    exact ⟨w, fun c hc => (same c).mpr (hw c hc), rfl⟩

theorem Regex.residuals_ofList (root : Regex σ) (symbols : List σ) :
    root.residuals (Alphabet.ofList symbols).symbols.toList = root.residuals symbols := by
  apply root.residuals_congr
  intro c
  rw [Array.mem_toList_iff, Alphabet.mem_symbols_ofList]

namespace Dfa

variable {config : Config} {r : Regex σ} {symbols : List σ} {d : Dfa σ}

/-- What is told of an exploration that comes to its end. -/
theorem compile_of_explored {e : Exploration r}
    {complete : e.Complete (Alphabet.ofList symbols).symbols.toList}
    (explored : Exploration.ofRegex config.stateLimit (Alphabet.ofList symbols).symbols.toList r =
      .ok ⟨e, complete⟩) :
    compile config r symbols =
      ⟨e.found.toList.mapIdx (fun s r => .discovered s r) ++
        [.compiled e.found.size (Alphabet.ofList symbols).size],
        .ok (e.toDfa (Alphabet.ofList symbols) complete)⟩ := by
  unfold compile
  dsimp only
  rw [explored]

/-- What is told of an exploration that is stopped. -/
theorem compile_of_stopped {found : Array (Regex σ)}
    (stopped : Exploration.ofRegex config.stateLimit (Alphabet.ofList symbols).symbols.toList r =
      .error found) :
    compile config r symbols =
      ⟨found.toList.mapIdx fun s r => .discovered s r,
        .error (.tooManyStates (config.stateLimit.getD 0))⟩ := by
  unfold compile
  dsimp only
  rw [stopped]

/-- A compiled automaton is that of a complete exploration. -/
theorem compile_eq_ok (h : (compile config r symbols).result = .ok d) :
    ∃ (e : Exploration r) (complete : e.Complete (Alphabet.ofList symbols).symbols.toList),
      Exploration.ofRegex config.stateLimit (Alphabet.ofList symbols).symbols.toList r =
          .ok ⟨e, complete⟩ ∧
        d = e.toDfa (Alphabet.ofList symbols) complete := by
  cases search :
      Exploration.ofRegex config.stateLimit (Alphabet.ofList symbols).symbols.toList r with
  | error found =>
      rw [compile_of_stopped search] at h
      cases h
  | ok result =>
      obtain ⟨e, complete⟩ := result
      rw [compile_of_explored search] at h
      exact ⟨e, complete, rfl, (Except.ok.inj h).symm⟩

/-- Without a limit there is an automaton. -/
theorem compile_unlimited (config : Config) (unlimited : config.stateLimit = none) (r : Regex σ)
    (symbols : List σ) : ∃ d, (compile config r symbols).result = .ok d := by
  obtain ⟨⟨e, complete⟩, explored⟩ :=
    Exploration.ofRegex_unlimited r (Alphabet.ofList symbols).symbols.toList
  rw [← unlimited] at explored
  rw [compile_of_explored explored]
  exact ⟨_, rfl⟩

theorem alphabet_compile (h : (compile config r symbols).result = .ok d) :
    d.alphabet = Alphabet.ofList symbols := by
  obtain ⟨e, complete, -, rfl⟩ := compile_eq_ok h
  rfl

theorem mem_alphabet_compile (h : (compile config r symbols).result = .ok d) {c : σ} :
    c ∈ d.alphabet.symbols ↔ c ∈ symbols := by
  rw [alphabet_compile h, Alphabet.mem_symbols_ofList]

/-- There are as many states as derivatives by words over the alphabet. -/
theorem stateCount_compile (h : (compile config r symbols).result = .ok d) :
    d.stateCount = (r.residuals symbols).ncard := by
  obtain ⟨e, complete, explored, rfl⟩ := compile_eq_ok h
  have count := (Exploration.traced_ofRegex explored).size_eq_ncard complete
  rw [r.residuals_ofList] at count
  show (e.found.map Regex.nullable).size = _
  rw [Array.size_map, count]

/-- The automaton decides words over the alphabet as the regex does. -/
theorem isMatch_compile (h : (compile config r symbols).result = .ok d) {w : List σ}
    (hw : ∀ c ∈ w, c ∈ symbols) : d.isMatch w = r.accepts w := by
  obtain ⟨e, complete, explored, rfl⟩ := compile_eq_ok h
  apply Exploration.isMatch_toDfa (Exploration.traced_ofRegex explored)
  intro c hc
  exact Alphabet.mem_symbols_ofList.mpr (hw c hc)

/-- The automaton rejects a word with any other symbol. -/
theorem isMatch_compile_outside (h : (compile config r symbols).result = .ok d) {w : List σ}
    (hw : ∃ c ∈ w, c ∉ symbols) : d.isMatch w = false := by
  obtain ⟨c, member, outside⟩ := hw
  exact isMatch_eq_false ⟨c, member, fun inside => outside ((mem_alphabet_compile h).mp inside)⟩

end Dfa

/-! ## Termination -/

/-- A regex has finitely many derivatives by words over an alphabet. -/
theorem Regex.finite_residuals (root : Regex σ) (symbols : List σ) :
    (root.residuals symbols).Finite := by
  apply root.derivativeBound.finite_toSet.subset
  rintro r ⟨w, -, read⟩
  exact Regex.Reaches.mem_derivativeBound ⟨w, read⟩

/-- Determinization terminates: a regex has finitely many derivatives by words over an alphabet, the
search for them comes to its end unless it is limited, and there is an automaton with a state for
each of them. -/
theorem Regex.determinization_terminates (root : Regex σ) (symbols : List σ) :
    (root.residuals symbols).Finite ∧
      (∃ result, Exploration.ofRegex none symbols root = .ok result) ∧
      ∃ d, (Dfa.ofRegex root symbols).result = .ok d ∧
        d.stateCount = (root.residuals symbols).ncard := by
  refine ⟨root.finite_residuals symbols, Exploration.ofRegex_unlimited root symbols, ?_⟩
  obtain ⟨d, compiled⟩ : ∃ d, (Dfa.ofRegex root symbols).result = .ok d :=
    Dfa.compile_unlimited {} rfl root symbols
  exact ⟨d, compiled, Dfa.stateCount_compile compiled⟩

end Residual
