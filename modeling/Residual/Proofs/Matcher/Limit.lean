import Residual.Proofs.Automaton.Limit
import Residual.Proofs.Matcher.Compile

/-!
# Limited automata

A limit on the number of states is exact and otherwise not seen (`compile_limited`): there is an
automaton when the regex has no more derivatives than that, and then it is the one without a limit.
Otherwise the work stops with an error (`stoppedAt_of_lt`), and has discovered as many states by
then as the limit allows. There is no other error (`compile_eq_error`), so that the limit and the
derivatives tell how many states there are, or that there is no automaton
(`map_stateCount_compile`).
-/

namespace Residual

variable {σ : Type} [Symbol σ]

/-- Work that was given up for want of states, when it had discovered `n` of those that the whole
work discovers. -/
structure Logged.StoppedAt (n : Nat) (work whole : Logged σ (Dfa σ)) : Prop where
  /-- The error names the limit. -/
  error : ∃ error : BuildError, work.result = .error error ∧
    error.message = "number of DFA states exceeds limit of " ++ toString n
  /-- Exactly `n` states are discovered, and nothing else happens. -/
  discovered : ∃ found : List (Regex σ), found.length = n ∧ found.Nodup ∧
    work.events = found.mapIdx fun s r => .discovered s r
  /-- The whole work discovers these first. -/
  first : work.events <+: whole.events

theorem prefix_mapIdx {α β : Type} {f : Nat → α → β} {l l' : List α} (h : l <+: l') :
    l.mapIdx f <+: l'.mapIdx f := by
  obtain ⟨more, rfl⟩ := h
  rw [List.mapIdx_append]
  exact List.prefix_append _ _

namespace Dfa

section Explored

variable {config : Config} {n : Nat} {r : Regex σ} {symbols : List σ} {e : Exploration r}
  {complete : e.Complete (Alphabet.ofList symbols).symbols.toList}

/-- Where there is room for all states, the limit is not seen. -/
theorem compile_of_le (limited : config.stateLimit = some n)
    (explored : Exploration.ofRegex none (Alphabet.ofList symbols).symbols.toList r =
      .ok ⟨e, complete⟩)
    (within : e.found.size ≤ n) : compile config r symbols = ofRegex r symbols := by
  have whole : ofRegex r symbols = _ := compile_of_explored explored
  have explored' := Exploration.ofRegex_of_le explored within
  rw [← limited] at explored'
  rw [compile_of_explored explored', whole]

/-- Where there is not, the work stops. -/
theorem stoppedAt_of_lt (limited : config.stateLimit = some n)
    (explored : Exploration.ofRegex none (Alphabet.ofList symbols).symbols.toList r =
      .ok ⟨e, complete⟩)
    (beyond : n < e.found.size) :
    (compile config r symbols).StoppedAt n (ofRegex r symbols) := by
  have whole : ofRegex r symbols = _ := compile_of_explored explored
  have stopped := Exploration.ofRegex_of_lt explored beyond
  rw [← limited] at stopped
  have taken : (e.found.take n).toList = e.found.toList.take n := by simp
  rw [compile_of_stopped stopped, whole, taken]
  refine ⟨⟨_, rfl, ?_⟩, ⟨e.found.toList.take n, ?_, ?_, rfl⟩, ?_⟩
  · rw [limited]
    rfl
  · simpa using Nat.le_of_lt beyond
  · exact e.nodup_found.sublist (List.take_sublist n _)
  · exact (prefix_mapIdx (List.take_prefix n _)).trans (List.prefix_append _ _)

end Explored

/-- There is an automaton when there is room for all states. -/
theorem exists_compile_iff {config : Config} {n : Nat} (limited : config.stateLimit = some n)
    (r : Regex σ) (symbols : List σ) :
    (∃ d, (compile config r symbols).result = .ok d) ↔ (r.residuals symbols).ncard ≤ n := by
  obtain ⟨⟨e, complete⟩, explored⟩ :=
    Exploration.ofRegex_unlimited r (Alphabet.ofList symbols).symbols.toList
  rw [← r.residuals_ofList, ← (Exploration.traced_ofRegex explored).size_eq_ncard complete]
  constructor
  · rintro ⟨d, compiled⟩
    apply Nat.le_of_not_lt
    intro beyond
    obtain ⟨error, failed, -⟩ := (stoppedAt_of_lt limited explored beyond).error
    rw [compiled] at failed
    cases failed
  · intro within
    rw [compile_of_le limited explored within]
    exact compile_unlimited {} rfl r symbols

/-- A limit on the number of states is exact and otherwise not seen. -/
theorem compile_limited {config : Config} {n : Nat} (limited : config.stateLimit = some n)
    (r : Regex σ) (symbols : List σ) :
    1 ≤ (r.residuals symbols).ncard ∧
      ((∃ d, (compile config r symbols).result = .ok d) ↔ (r.residuals symbols).ncard ≤ n) ∧
      ((r.residuals symbols).ncard ≤ n → compile config r symbols = ofRegex r symbols) ∧
      (n < (r.residuals symbols).ncard →
        (compile config r symbols).StoppedAt n (ofRegex r symbols)) := by
  have room := exists_compile_iff limited r symbols
  obtain ⟨⟨e, complete⟩, explored⟩ :=
    Exploration.ofRegex_unlimited r (Alphabet.ofList symbols).symbols.toList
  have count : e.found.size = (r.residuals symbols).ncard := by
    rw [(Exploration.traced_ofRegex explored).size_eq_ncard complete, r.residuals_ofList]
  rw [← count] at room ⊢
  exact ⟨e.found_size_pos, room, compile_of_le limited explored, stoppedAt_of_lt limited explored⟩

/-- The start state fits, and what is left behind one symbol does not. -/
theorem compile_limited_any :
    (compile { stateLimit? := some (some 1) } (Regex.any : Regex UInt8) [97]).events.length = 1 ∧
      ∃ error, (compile { stateLimit? := some (some 1) } (Regex.any : Regex UInt8) [97]).result =
          .error error ∧
        error.message = "number of DFA states exceeds limit of 1" := by
  have two : 1 < ((Regex.any : Regex UInt8).residuals [97]).ncard := by
    rw [Set.one_lt_ncard_iff (Regex.finite_residuals _ _)]
    refine ⟨Regex.any, Regex.epsilon, Regex.mem_residuals_self _ _, ⟨[97], by simp, rfl⟩, ?_⟩
    rw [ne_eq, ← Regex.tree_inj]
    exact nofun
  have limited : ({ stateLimit? := some (some 1) } : Config).stateLimit = some 1 := rfl
  obtain ⟨-, -, -, stopped⟩ := compile_limited limited (Regex.any : Regex UInt8) [97]
  obtain ⟨failed, ⟨found, length, -, events⟩, -⟩ := stopped two
  refine ⟨?_, failed⟩
  rw [events, List.length_mapIdx, length]

/-- Compiling fails for want of states only. -/
theorem compile_eq_error {config : Config} {r : Regex σ} {symbols : List σ} {error : BuildError}
    (h : (compile config r symbols).result = .error error) :
    error = .tooManyStates (config.stateLimit.getD 0) := by
  cases search :
      Exploration.ofRegex config.stateLimit (Alphabet.ofList symbols).symbols.toList r with
  | error found =>
      rw [compile_of_stopped search] at h
      exact (Except.error.inj h).symm
  | ok result =>
      obtain ⟨e, complete⟩ := result
      rw [compile_of_explored search] at h
      cases h

/-- What compiling tells of the number of states. -/
theorem map_stateCount_compile (config : Config) (r : Regex σ) (symbols : List σ) :
    (compile config r symbols).result.map stateCount =
      if ∀ n ∈ config.stateLimit, (r.residuals symbols).ncard ≤ n then
        .ok (r.residuals symbols).ncard
      else .error (.tooManyStates (config.stateLimit.getD 0)) := by
  have room : (∃ d, (compile config r symbols).result = .ok d) ↔
      ∀ n ∈ config.stateLimit, (r.residuals symbols).ncard ≤ n := by
    cases limited : config.stateLimit with
    | none => simpa using compile_unlimited config limited r symbols
    | some n => simpa using exists_compile_iff limited r symbols
  cases compiled : (compile config r symbols).result with
  | ok d =>
      rw [if_pos (room.mp ⟨d, compiled⟩), ← stateCount_compile compiled]
      rfl
  | error error =>
      have full : ¬ ∃ d, (compile config r symbols).result = .ok d := by simp [compiled]
      rw [if_neg (mt room.mpr full), compile_eq_error compiled]
      rfl

end Dfa

end Residual
