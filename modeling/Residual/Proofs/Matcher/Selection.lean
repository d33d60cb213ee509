import Residual.Matcher.Builder
import Residual.Proofs.Matcher.Lookup
import Residual.Proofs.Matcher.Permute

/-!
# The chosen matcher runs its automaton

Which matcher is chosen depends on the settings, the number of states and the alphabet, and none of
it can be told from the answers: `Dfa.exists_matcher`. Symbols take part by `LawfulSpecialized`,
which asks of their special matchers what `tryVectors` and `tryLookup` do for those of bytes.
-/

namespace Residual

/-! ## Results of logged work -/

namespace Logged

variable {σ : Type} [Symbol σ] {α β : Type}

@[simp] theorem result_pure (a : α) : (pure a : Logged σ α).result = .ok a :=
  rfl

@[simp] theorem result_ofResult (result : Except BuildError α) :
    (ofResult result : Logged σ α).result = result :=
  rfl

@[simp] theorem result_log (event : Event σ) : (log event).result = .ok () :=
  rfl

theorem result_bind (work : Logged σ α) (next : α → Logged σ β) :
    (work >>= next).result = work.result.bind fun a => (next a).result := by
  show (andThen work next).result = _
  cases done : work.result <;> simp [andThen, done, Except.bind]

/-- Work goes on from a result. -/
theorem result_bind_of_ok {work : Logged σ α} {a : α} (done : work.result = .ok a)
    (next : α → Logged σ β) : (work >>= next).result = (next a).result := by
  rw [result_bind, done]
  rfl

theorem result_log_bind (event : Event σ) (next : Unit → Logged σ β) :
    (log event >>= next).result = (next ()).result :=
  result_bind_of_ok (result_log event) next

end Logged

/-- The generic matcher accepts the inputs that its automaton matches. -/
theorem GenericMatcher.accepts_ofDfa {σ : Type} [Symbol σ] (d : Dfa σ) (input : List σ) :
    (ofDfa d).accepts input = d.isMatch input := by
  show (d.run d.start input).any d.acceptingStates.contains = d.isMatch input
  by_cases hw : ∀ c ∈ input, c ∈ d.alphabet.symbols
  · obtain ⟨t, run, ht⟩ := Dfa.exists_run d.start_lt hw
    rw [Dfa.isMatch, run, Option.any_some, Option.any_some, Bool.eq_iff_iff,
      List.contains_iff_mem, Dfa.mem_acceptingStates ht]
  · -- a run that leaves the alphabet has no state to ask for
    have outside : ∃ c ∈ input, c ∉ d.alphabet.symbols := by simpa using hw
    rw [Dfa.isMatch, Dfa.run_eq_none outside, Option.any_none, Option.any_none]

/-- The matcher answers as the automaton does, and knows how many states it has. -/
structure Matcher.Runs {σ : Type} [Symbol σ] (m : Matcher σ) (d : Dfa σ) : Prop where
  stateCount : m.stateCount? = some d.stateCount
  accepts : ∀ input, m.accepts input = d.isMatch input

namespace Selection

open Logged

theorem runs_ofGeneric {σ : Type} [Symbol σ] (d : Dfa σ) :
    (Matcher.ofGeneric (.ofDfa d)).Runs d :=
  ⟨rfl, GenericMatcher.accepts_ofDfa d⟩

theorem result_useGeneric {σ : Type} [Symbol σ] (d : Dfa σ) :
    (useGeneric d).result = .ok (.ofGeneric (.ofDfa d)) :=
  result_log_bind _ _

/-! ## Special matchers of bytes -/

variable {d : Dfa UInt8} {lanes : Lanes}

theorem runs_ofPermute {lanes : FoldingLanes} {m : PermuteMatcher lanes}
    (h : PermuteMatcher.ofDfa lanes d = .ok m) :
    (Matcher.ofPermute m).Runs d := by
  refine ⟨?_, PermuteMatcher.accepts_ofDfa h⟩
  show some m.stateCount = some d.stateCount
  rw [(PermuteMatcher.runs_ofDfa h).stateCount]

theorem runs_ofLookup {m : LookupMatcher} (h : LookupMatcher.ofDfa d = .ok m) :
    (Matcher.ofLookup m).Runs d := by
  refine ⟨?_, LookupMatcher.accepts_ofDfa h⟩
  show some m.stateCount = some d.stateCount
  rw [(LookupMatcher.runs_ofDfa h).stateCount]

theorem isByteComplete_iff : d.isByteComplete = true ↔ ∀ b, b ∈ d.alphabet.symbols := by
  rw [Dfa.isByteComplete, Option.isNone_iff_eq_none, Dfa.missingByte?_eq_none]

theorem tryLanes_of_lt (large : lanes.width < d.stateCount) :
    (tryLanes lanes d).result = .ok none := by
  rw [tryLanes, if_pos large, result_log_bind, result_pure]

theorem tryLanes_of_le (small : d.stateCount ≤ lanes.width)
    (complete : ∀ b, b ∈ d.alphabet.symbols) :
    ∃ m : PermuteMatcher lanes, (tryLanes lanes d).result = .ok (some (.ofPermute m)) ∧
      (Matcher.ofPermute m).Runs d := by
  obtain ⟨m, made⟩ := @PermuteMatcher.exists_ofDfa lanes d small complete
  have attempt : (ofResult (PermuteMatcher.ofDfa lanes d) : Logged UInt8 _).result = .ok m := by
    rw [result_ofResult, made]
  refine ⟨m, ?_, runs_ofPermute made⟩
  rw [tryLanes, if_neg (Nat.not_lt.mpr small), result_bind_of_ok attempt, result_log_bind,
    result_pure]

theorem tryLookup_of_lt (large : LookupMatcher.capacity < d.stateCount) :
    (tryLookup d).result = .ok none := by
  rw [tryLookup, if_neg (Nat.not_le.mpr large), result_log_bind, result_pure]

theorem tryLookup_of_le (small : d.stateCount ≤ LookupMatcher.capacity)
    (complete : ∀ b, b ∈ d.alphabet.symbols) :
    ∃ m : LookupMatcher, (tryLookup d).result = .ok (some (.ofLookup m)) ∧
      (Matcher.ofLookup m).Runs d := by
  obtain ⟨m, made⟩ := LookupMatcher.exists_ofDfa small complete
  have attempt : (ofResult (LookupMatcher.ofDfa d) : Logged UInt8 _).result = .ok m := by
    rw [result_ofResult, made]
  refine ⟨m, ?_, runs_ofLookup made⟩
  rw [tryLookup, if_pos small, result_log_bind, result_bind_of_ok attempt, result_pure]

/-- The work comes to no matcher, or to one that runs the automaton. -/
def Sound {σ : Type} [Symbol σ] (work : Logged σ (Option (Matcher σ))) (d : Dfa σ) : Prop :=
  work.result = .ok none ∨ ∃ m, work.result = .ok (some m) ∧ m.Runs d

theorem sound_tryLookup (complete : ∀ b, b ∈ d.alphabet.symbols) : Sound (tryLookup d) d := by
  rcases Nat.lt_or_ge LookupMatcher.capacity d.stateCount with large | small
  · exact .inl (tryLookup_of_lt large)
  · obtain ⟨m, made, runs⟩ := tryLookup_of_le small complete
    exact .inr ⟨_, made, runs⟩

theorem sound_tryLanes (lanes : Lanes) (complete : ∀ b, b ∈ d.alphabet.symbols) :
    Sound (tryLanes lanes d) d := by
  rcases Nat.lt_or_ge lanes.width d.stateCount with large | small
  · exact .inl (tryLanes_of_lt large)
  · obtain ⟨m, made, runs⟩ := tryLanes_of_le small complete
    exact .inr ⟨_, made, runs⟩

/-- A matcher that was found is kept, and another attempt is made where none was. -/
theorem Sound.bind {σ : Type} [Symbol σ] {d : Dfa σ} {first : Logged σ (Option (Matcher σ))}
    {next : Option (Matcher σ) → Logged σ (Option (Matcher σ))} (hfirst : Sound first d)
    (keep : ∀ m, (next (some m)).result = .ok (some m)) (retry : Sound (next none) d) :
    Sound (first >>= next) d := by
  rcases hfirst with nothing | ⟨m, made, runs⟩
  · rw [Sound, result_bind_of_ok nothing]
    exact retry
  · rw [Sound, result_bind_of_ok made]
    exact .inr ⟨m, keep m, runs⟩

theorem sound_tryVectors (complete : ∀ b, b ∈ d.alphabet.symbols) : Sound (tryVectors d) d :=
  (sound_tryLanes .ssse3 complete).bind (fun _ => rfl) (sound_tryLanes .avx2 complete)

theorem sound_specializeBytes (config : Config) (d : Dfa UInt8) :
    Sound (specializeBytes config d) d := by
  unfold specializeBytes
  split
  · exact .inl (result_log_bind _ _)
  · -- from here on there are transitions for every byte, so that attempts cannot fail
    next complete =>
    have complete : ∀ b, b ∈ d.alphabet.symbols := isByteComplete_iff.mp (by simpa using complete)
    split
    · exact (sound_tryVectors complete).bind (fun _ => rfl) (sound_tryLookup complete)
    · rw [Sound, result_log_bind]
      exact sound_tryLookup complete

end Selection

/-! ## Symbols with special matchers -/

/-- The special matchers run their automata. -/
class LawfulSpecialized (σ : Type) [Symbol σ] [Specialized σ] : Prop where
  sound : ∀ (config : Config) (d : Dfa σ), Selection.Sound (Specialized.specialize config d) d

instance : LawfulSpecialized UInt8 := ⟨Selection.sound_specializeBytes⟩

instance : LawfulSpecialized UInt16 := ⟨fun _ _ => .inl rfl⟩

instance : LawfulSpecialized UInt32 := ⟨fun _ _ => .inl rfl⟩

instance : LawfulSpecialized Char := ⟨fun _ _ => .inl rfl⟩

/-- Every automaton has a matcher under every settings, and it runs the automaton. -/
theorem Dfa.exists_matcher {σ : Type} [Symbol σ] [Specialized σ] [LawfulSpecialized σ] (d : Dfa σ)
    (config : Config) : ∃ m, (d.matcher config).result = .ok m ∧ m.Runs d := by
  unfold Dfa.matcher
  split
  · rcases LawfulSpecialized.sound config d with nothing | ⟨m, made, runs⟩
    · rw [Logged.result_bind_of_ok nothing]
      exact ⟨_, Selection.result_useGeneric d, Selection.runs_ofGeneric d⟩
    · rw [Logged.result_bind_of_ok made]
      exact ⟨m, rfl, runs⟩
  · rw [Logged.result_log_bind]
    exact ⟨_, Selection.result_useGeneric d, Selection.runs_ofGeneric d⟩

end Residual
