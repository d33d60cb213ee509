import Mathlib.Tactic.SplitIfs
import Residual.Proofs.Matcher.Selection

/-!
# Which matcher is chosen

A builder looks for a matcher in a fixed order, and each attempt that finds none leaves the choice to
the next one.

* **settings** — `Builder.inForce`: a setting has the value it was given last, or its default;
* **attempts** — `Selection.Ends`: how an attempt ends, with nothing or with a matcher of some kind.
  Attempts that follow one another end as the first that finds something (`Ends.orElse`), and none
  of them fails;
* **choices** — `Builder.configured_chooses`: what is chosen for an automaton, told by the settings,
  its alphabet and the number of its states.
-/

namespace Residual

/-! ## Settings -/

/-- The settings in force after some were made one after another: each has the value that was given
last, or its default if none was. Setting no limit is giving a value. -/
structure Config.InForce (config : Config) (made : List Config) : Prop where
  optimize : config.optimize = (made.filterMap optimize?).getLast?.getD true
  vectorize : config.vectorize = (made.filterMap vectorize?).getLast?.getD true
  stateLimit : config.stateLimit = (made.filterMap stateLimit?).getLast?.getD none

namespace Builder

/-- Each setting is kept until another value is given. -/
theorem foldl_configure {α : Type} (setting : Config → Option α)
    (overlaid : ∀ lower upper : Config,
      setting (lower.overlay upper) = (setting upper).or (setting lower))
    (configs : List Config) (b : Builder) :
    setting (configs.foldl configure b).config =
      (configs.filterMap setting).getLast?.or (setting b.config) := by
  induction configs generalizing b with
  | nil => rfl
  | cons config configs ih =>
      rw [List.foldl_cons, ih, configure, overlaid]
      cases given : setting config with
      | none => rw [List.filterMap_cons_none given, Option.none_or]
      | some a =>
          rw [List.filterMap_cons_some given, List.getLast?_cons]
          cases (configs.filterMap setting).getLast? <;> rfl

theorem inForce (configs : List Config) : (configs.foldl configure {}).config.InForce configs := by
  constructor
  · rw [Config.optimize, foldl_configure Config.optimize? (fun _ _ => rfl), Option.or_none]
  · rw [Config.vectorize, foldl_configure Config.vectorize? (fun _ _ => rfl), Option.or_none]
  · rw [Config.stateLimit, foldl_configure Config.stateLimit? (fun _ _ => rfl), Option.or_none]

end Builder

/-! ## Attempts -/

namespace Selection

open Logged

/-- How an attempt to find a matcher of an automaton ends: it finds none, or one of the given kind
that runs the automaton. -/
def Ends {σ : Type} [Symbol σ] (work : Logged σ (Option (Matcher σ))) (d : Dfa σ) :
    Option MatcherKind → Prop
  | none => work.result = .ok none
  | some kind => ∃ m, work.result = .ok (some m) ∧ m.Runs d ∧ m.kind = kind

/-- A matcher that was found is kept, and where none was the next attempt decides. -/
theorem Ends.orElse {σ : Type} [Symbol σ] {d : Dfa σ} {first : Logged σ (Option (Matcher σ))}
    {next : Option (Matcher σ) → Logged σ (Option (Matcher σ))} {kind? retried? : Option MatcherKind}
    (hfirst : Ends first d kind?) (keep : ∀ m, (next (some m)).result = .ok (some m))
    (retry : Ends (next none) d retried?) : Ends (first >>= next) d (kind?.or retried?) := by
  cases kind? with
  | none =>
      have skipped : (first >>= next).result = (next none).result := result_bind_of_ok hfirst next
      rw [Option.none_or]
      cases retried? <;> simpa only [Ends, skipped] using retry
  | some kind =>
      obtain ⟨m, made, runs, kind⟩ := hfirst
      refine ⟨m, ?_, runs, kind⟩
      rw [result_bind_of_ok made, keep]

/-- What is logged beforehand does not matter. -/
theorem Ends.log_bind {σ : Type} [Symbol σ] {d : Dfa σ} {event : Event σ}
    {next : Unit → Logged σ (Option (Matcher σ))} {kind? : Option MatcherKind}
    (h : Ends (next ()) d kind?) : Ends (log event >>= next) d kind? := by
  cases kind? <;> simpa only [Ends, result_log_bind] using h

variable {d : Dfa UInt8}

/-- The kind of a matcher that has room for so many states, if those of the automaton fit. -/
def fitting (d : Dfa UInt8) (capacity : Nat) (kind : MatcherKind) : Option MatcherKind :=
  if d.stateCount ≤ capacity then some kind else none

/-- The kind of the special matcher of an automaton, if there is one. -/
def specialKind? (config : Config) (d : Dfa UInt8) : Option MatcherKind :=
  if d.isByteComplete then
    (if config.vectorize then (fitting d 16 .permute16).or (fitting d 32 .permute32) else none).or
      (fitting d 256 .lookup)
  else none

theorem ends_tryLanes (lanes : Lanes) (complete : ∀ b, b ∈ d.alphabet.symbols) :
    Ends (tryLanes lanes d) d
      (fitting d lanes.width (if lanes.width ≤ 16 then .permute16 else .permute32)) := by
  unfold fitting
  split
  · next small =>
    obtain ⟨m, made, runs⟩ := tryLanes_of_le small complete
    exact ⟨_, made, runs, rfl⟩
  · next large => exact tryLanes_of_lt (Nat.lt_of_not_le large)

theorem ends_tryVectors (complete : ∀ b, b ∈ d.alphabet.symbols) :
    Ends (tryVectors d) d ((fitting d 16 .permute16).or (fitting d 32 .permute32)) :=
  (ends_tryLanes .ssse3 complete).orElse (fun _ => rfl) (ends_tryLanes .avx2 complete)

theorem ends_tryLookup (complete : ∀ b, b ∈ d.alphabet.symbols) :
    Ends (tryLookup d) d (fitting d 256 .lookup) := by
  unfold fitting
  split
  · next small =>
    obtain ⟨m, made, runs⟩ := tryLookup_of_le small complete
    exact ⟨_, made, runs, rfl⟩
  · next large => exact tryLookup_of_lt (Nat.lt_of_not_le large)

theorem ends_specializeBytes (config : Config) (d : Dfa UInt8) :
    Ends (specializeBytes config d) d (specialKind? config d) := by
  unfold specializeBytes specialKind?
  cases complete? : d.isByteComplete with
  | false => exact result_log_bind _ _
  | true =>
      have complete := isByteComplete_iff.mp complete?
      cases config.vectorize with
      | true => exact (ends_tryVectors complete).orElse (fun _ => rfl) (ends_tryLookup complete)
      | false => exact (ends_tryLookup complete).log_bind

end Selection

/-- Where the search for a special matcher ends without one, the generic matcher is chosen. -/
theorem Dfa.exists_matcher_of_ends {σ : Type} [Symbol σ] [Specialized σ] {d : Dfa σ}
    {config : Config} {kind? : Option MatcherKind}
    (h : Selection.Ends (Specialized.specialize config d) d kind?) :
    ∃ m, (d.matcher config).result = .ok m ∧ m.Runs d ∧
      m.kind = if config.optimize then kind?.getD .generic else .generic := by
  unfold Dfa.matcher
  cases config.optimize with
  | false =>
      rw [if_neg Bool.false_ne_true, Logged.result_log_bind, Selection.result_useGeneric]
      exact ⟨_, rfl, Selection.runs_ofGeneric d, rfl⟩
  | true =>
      rw [if_pos rfl]
      cases kind? with
      | none =>
          rw [Logged.result_bind_of_ok h]
          exact ⟨_, Selection.result_useGeneric d, Selection.runs_ofGeneric d, rfl⟩
      | some kind =>
          obtain ⟨m, made, runs, kind⟩ := h
          rw [Logged.result_bind_of_ok made]
          exact ⟨m, rfl, runs, kind⟩

/-! ## Choices -/

/-- Symbols whose automata have no special matchers: all but bytes. -/
class Unspecialized (σ : Type) [Symbol σ] [Specialized σ] : Prop where
  specialize : ∀ (config : Config) (d : Dfa σ),
    (Specialized.specialize config d).result = .ok none

instance : Unspecialized UInt16 := ⟨fun _ _ => rfl⟩

instance : Unspecialized UInt32 := ⟨fun _ _ => rfl⟩

instance : Unspecialized Char := ⟨fun _ _ => rfl⟩

/-- When a matcher of each kind is chosen for a byte automaton. -/
structure Selection.Chosen (config : Config) (d : Dfa UInt8) (kind : MatcherKind) : Prop where
  generic : kind = .generic ↔
    config.optimize = false ∨ (∃ b, b ∉ d.alphabet.symbols) ∨ 256 < d.stateCount
  permute16 : kind = .permute16 ↔
    config.optimize = true ∧ (∀ b, b ∈ d.alphabet.symbols) ∧ config.vectorize = true ∧
      d.stateCount ≤ 16
  permute32 : kind = .permute32 ↔
    config.optimize = true ∧ (∀ b, b ∈ d.alphabet.symbols) ∧ config.vectorize = true ∧
      17 ≤ d.stateCount ∧ d.stateCount ≤ 32
  lookup : kind = .lookup ↔
    config.optimize = true ∧ (∀ b, b ∈ d.alphabet.symbols) ∧ d.stateCount ≤ 256 ∧
      (config.vectorize = true → 33 ≤ d.stateCount)

theorem Selection.chosen (config : Config) (d : Dfa UInt8) :
    Chosen config d
      (if config.optimize then (specialKind? config d).getD .generic else .generic) := by
  cases optimize : config.optimize with
  | false =>
      rw [if_neg Bool.false_ne_true]
      constructor <;> simp [optimize]
  | true =>
      rw [if_pos rfl]
      cases complete? : d.isByteComplete with
      | false =>
          have incomplete : ¬ ∀ b, b ∈ d.alphabet.symbols := by
            rw [← isByteComplete_iff, complete?]
            exact Bool.false_ne_true
          have missing : ∃ b, b ∉ d.alphabet.symbols := Classical.not_forall.mp incomplete
          rw [specialKind?, complete?, if_neg Bool.false_ne_true]
          constructor <;> simp [missing, incomplete]
      | true =>
          have complete := isByteComplete_iff.mp complete?
          rw [specialKind?, complete?, if_pos rfl]
          cases vectorize : config.vectorize with
          | false =>
              rw [if_neg Bool.false_ne_true, Option.none_or, fitting]
              split <;> constructor <;> simp [optimize, complete, vectorize] <;> omega
          | true =>
              -- the kinds differ by where the number of states lies between the capacities
              rw [if_pos rfl, fitting, fitting, fitting]
              split_ifs <;> constructor <;> simp [optimize, complete, vectorize] <;> omega

/-- However a builder was configured, it finds a matcher for every automaton, and the matcher answers
as the automaton does. For an automaton over bytes its kind is told by the settings in force, the
bytes in the alphabet and the number of states; for symbols of another type it is the generic one. -/
theorem Builder.configured_chooses (configs : List Config) :
    (configs.foldl configure {}).config.InForce configs ∧
    (∀ d : Dfa UInt8, ∃ m, ((configs.foldl configure {}).buildFromDfa d).result = .ok m ∧
      m.Runs d ∧ Selection.Chosen (configs.foldl configure {}).config d m.kind) ∧
    ∀ (σ : Type) [Symbol σ] [Specialized σ] [Unspecialized σ] (d : Dfa σ), ∃ m,
      ((configs.foldl configure {}).buildFromDfa d).result = .ok m ∧ m.Runs d ∧
        m.kind = .generic := by
  refine ⟨inForce configs, ?_, ?_⟩
  · intro d
    obtain ⟨m, made, runs, kind⟩ := Dfa.exists_matcher_of_ends
      (Selection.ends_specializeBytes (configs.foldl configure {}).config d)
    refine ⟨m, made, runs, ?_⟩
    rw [kind]
    exact Selection.chosen _ d
  · intro σ _ _ _ d
    have nothing : Selection.Ends
        (Specialized.specialize (configs.foldl configure {}).config d) d none :=
      Unspecialized.specialize _ d
    obtain ⟨m, made, runs, kind⟩ := Dfa.exists_matcher_of_ends nothing
    refine ⟨m, made, runs, ?_⟩
    rw [kind]
    exact ite_self _

/-- The automaton in which every symbol of a list leads from every state to the start state. -/
def Dfa.restarting {σ : Type} [Symbol σ] (symbols : List σ) (count : Nat) (pos : 0 < count) :
    Dfa σ where
  alphabet := .ofList symbols
  targets := .replicate (count * (Alphabet.ofList symbols).size) 0
  accepting := .replicate count false
  accepting_size_pos := by rwa [Array.size_replicate]
  targets_size := by rw [Array.size_replicate, Array.size_replicate]
  target_lt t mem := by rwa [(Array.mem_replicate.mp mem).2, Array.size_replicate]

/-- Vectors that were turned off and on again are used for 17 states, unless the symbols are
characters. -/
theorem Builder.configured_chooses_seventeen :
    (∃ m, (([{ vectorize? := some false }, { vectorize? := some true }, {}].foldl configure
        {}).buildFromDfa (Dfa.restarting Dfa.allBytes 17 (by decide))).result = .ok m ∧
      m.kind = .permute32) ∧
    ∃ m, (([{ vectorize? := some false }, { vectorize? := some true }, {}].foldl configure
        {}).buildFromDfa (Dfa.restarting ['a', 'b'] 17 (by decide))).result = .ok m ∧
      m.kind = .generic := by
  obtain ⟨-, bytes, others⟩ :=
    configured_chooses [{ vectorize? := some false }, { vectorize? := some true }, {}]
  constructor
  · obtain ⟨m, made, -, chosen⟩ := bytes (Dfa.restarting Dfa.allBytes 17 (by decide))
    refine ⟨m, made, chosen.permute32.mpr ⟨rfl, ?_, rfl, by decide, by decide⟩⟩
    intro b
    exact Alphabet.mem_symbols_ofList.mpr (Dfa.mem_allBytes b)
  · obtain ⟨m, made, -, kind⟩ := others Char (Dfa.restarting ['a', 'b'] 17 (by decide))
    exact ⟨m, made, kind⟩

end Residual
