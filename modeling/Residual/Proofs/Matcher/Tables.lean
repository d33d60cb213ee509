import Residual.Proofs.Automaton.Discovery
import Residual.Proofs.Automaton.Queries
import Residual.Proofs.Automaton.Writing
import Residual.Proofs.Matcher.Compile

/-!
# Tables of transitions

Automata are compiled from regexes or written down from functions (`Dfa.Constructed`). Either way
nothing that is looked up lies outside the table:

* **tables** — `Tabular`: the symbols that the automaton was made over have a column each, in the
  order of first occurrences, and every state has an entry in every column that leads to a state;
* **runs** — `inside_run`: a run stays among the states, and `queryRun_eq`: it asks for addresses
  and successors that there are;
* **matchers** — `constructed_safe`: this covers matching by the automaton itself and by the generic
  matcher.
-/

namespace Residual.Dfa

variable {σ : Type} [Symbol σ] {d : Dfa σ}

/-! ## The alphabet of an automaton -/

section Alphabets

variable {symbols : List σ}

theorem alphabet_writeAccepting {d' : Dfa σ} {s : Nat} (h : d.writeAccepting s = .ok d') :
    d'.alphabet = d.alphabet := by
  unfold writeAccepting at h
  split at h
  · obtain rfl := Except.ok.inj h
    exact alphabet_setAccepting d s
  · cases h

theorem alphabet_foldlM_writeAccepting {d' : Dfa σ} {accepting : List Nat}
    (h : accepting.foldlM writeAccepting d = .ok d') : d'.alphabet = d.alphabet := by
  induction accepting generalizing d with
  | nil =>
      obtain rfl := Except.ok.inj h
      rfl
  | cons s accepting ih =>
      rw [List.foldlM_cons] at h
      obtain ⟨marked, first, rest⟩ := Exploration.bind_eq_ok h
      exact (ih rest).trans (alphabet_writeAccepting first)

theorem alphabet_ofFunction {count : Nat} {next : σ → Nat → Nat} {accepting : List Nat}
    (h : ofFunction symbols count next accepting = .ok d) :
    d.alphabet = Alphabet.ofList symbols := by
  unfold ofFunction at h
  split at h
  · next pos =>
    obtain ⟨filled, table, marked⟩ := Exploration.bind_eq_ok h
    have written : Outcome (TableFault (Alphabet.ofList symbols).symbols.toList count next)
        (Written (Alphabet.ofList symbols) count next (count * (Alphabet.ofList symbols).size))
        (.ok filled) := by
      rw [← table]
      exact outcome_writeStates pos
    exact (alphabet_foldlM_writeAccepting marked).trans written.of_eq_ok.columns
  · cases h

/-- The automaton was made over a list of symbols: compiled from a regex, by default or under the
settings of a builder, or written down from a function. -/
inductive Constructed [Specialized σ] (symbols : List σ) (d : Dfa σ) : Prop
  | ofRegex {r : Regex σ} (made : (Dfa.ofRegex r symbols).result = .ok d)
  | buildDfa {b : Builder} {r : Regex σ} (made : (b.buildDfa r symbols).result = .ok d)
  | ofFunction {count : Nat} {next : σ → Nat → Nat} {accepting : List Nat}
      (made : Dfa.ofFunction symbols count next accepting = .ok d)

theorem Constructed.alphabet_eq [Specialized σ] (h : Constructed symbols d) :
    d.alphabet = Alphabet.ofList symbols := by
  cases h with
  | ofRegex made => exact alphabet_compile made
  | buildDfa made => exact alphabet_compile made
  | ofFunction made => exact alphabet_ofFunction made

end Alphabets

/-! ## The table -/

/-- The table of an automaton over a list of symbols. There is a start state, every symbol has one
column, in the order of first occurrences, and every state has a row of states. -/
structure Tabular (symbols : List σ) (d : Dfa σ) : Prop where
  states : 0 < d.stateCount
  alphabet : d.alphabet.symbols.toList = symbols.eraseDups
  columns : ∀ c i, d.alphabet.column? c = some i ↔ d.alphabet.symbols[i]? = some c
  entries : d.targets.size = d.stateCount * d.alphabet.symbols.size
  targets : ∀ t ∈ d.targets, t < d.stateCount

theorem Constructed.tabular [Specialized σ] {symbols : List σ} (h : Constructed symbols d) :
    d.Tabular symbols where
  states := d.accepting_size_pos
  alphabet := by rw [h.alphabet_eq, Alphabet.symbols_ofList]
  columns _ _ := Alphabet.column?_eq_some
  entries := d.targets_size
  targets := d.target_lt

theorem Tabular.mem_iff {symbols : List σ} (h : d.Tabular symbols) {c : σ} :
    c ∈ d.alphabet.symbols ↔ c ∈ symbols := by
  rw [← Array.mem_toList_iff, h.alphabet, List.mem_eraseDups]

/-! ## Runs inside the table -/

/-- A run that has not ended is in a state, whose row has an entry for every column. -/
def Inside (d : Dfa σ) (run : Option Nat) : Prop :=
  ∀ s, run = some s → s < d.stateCount ∧
    ∀ c column, d.alphabet.column? c = some column →
      s * d.alphabet.size + column < d.targets.size

theorem inside_run (d : Dfa σ) (w : List σ) : d.Inside (d.run d.start w) := by
  intro s here
  have hs : s < d.stateCount := run_lt d.start_lt here
  exact ⟨hs, fun c column found => place_lt hs (Alphabet.column?_lt found)⟩

theorem next_lt {s t : Nat} {c : σ} (h : d.next s c = some t) : t < d.stateCount := by
  obtain ⟨column, -, entry⟩ := next_eq_some.mp h
  exact d.target_lt t (Array.mem_of_getElem? entry)

/-- Where there is a transition, there are as many as states. -/
theorem stateCount_le_targets {s t : Nat} {c : σ} (h : d.next s c = some t) :
    d.stateCount ≤ d.targets.size := by
  obtain ⟨column, found, -⟩ := next_eq_some.mp h
  rw [d.targets_size]
  exact Nat.le_mul_of_pos_right _ (Nat.zero_lt_of_lt (Alphabet.column?_lt found))

/-! ## Runs by queries -/

/-- Reads a word from a state by asking for one successor after another, up to the first symbol
without a column. -/
def queryRun (d : Dfa σ) : (s : UInt64) → (w : List σ) → Except NoSuchState (Option UInt64)
  | s, [] => .ok (some s)
  | s, c :: w => do
    match ← d.nextState s c with
    | none => return none
    | some t => d.queryRun (UInt64.ofNat t) w

/-- Reads a word from the start state and asks whether the last state accepts. -/
def queryMatch (d : Dfa σ) (w : List σ) : Except NoSuchState Bool := do
  match ← d.queryRun (UInt64.ofNat d.start) w with
  | none => return false
  | some s => d.isAccepting s

/-- A state that is a successor can be numbered by a word, if the table can be addressed. -/
theorem toNat_ofNat_of_next (addressable : d.targets.size ≤ UInt64.size) {s t : Nat} {c : σ}
    (h : d.next s c = some t) : (UInt64.ofNat t).toNat = t := by
  apply UInt64.toNat_ofNat_of_lt'
  have isState := next_lt h
  have states := stateCount_le_targets h
  omega

/-- From a state, all queries are answered. The induction is on the word: a successor is a state
again, and its number a word. -/
theorem queryRun_eq (addressable : d.targets.size ≤ UInt64.size) {s : UInt64} {w : List σ}
    (hs : s.toNat < d.stateCount) :
    d.queryRun s w = .ok ((d.run s.toNat w).map UInt64.ofNat) := by
  induction w generalizing s with
  | nil => rw [queryRun, run_nil, Option.map_some, UInt64.ofNat_toNat]
  | cons c w ih =>
      rw [queryRun, nextState_of_lt addressable hs, run_cons]
      cases step : d.next s.toNat c with
      | none => rfl
      | some t =>
          have number := toNat_ofNat_of_next addressable step
          have isState : (UInt64.ofNat t).toNat < d.stateCount := by
            rw [number]
            exact next_lt step
          have rest := ih isState
          rwa [number] at rest

/-- The state in which a word ends is numbered by a word, so that one can ask whether it accepts. -/
theorem isAccepting_of_run (addressable : d.targets.size ≤ UInt64.size) {s : Nat} {w : List σ}
    (h : d.run d.start w = some s) : d.isAccepting (UInt64.ofNat s) = .ok (d.accepts s) := by
  have number : (UInt64.ofNat s).toNat = s := by
    rcases List.eq_nil_or_concat w with rfl | ⟨v, c, rfl⟩
    · obtain rfl : d.start = s := Option.some.inj h
      rfl
    · rw [List.concat_eq_append, run_concat, Option.bind_eq_some_iff] at h
      obtain ⟨t, -, step⟩ := h
      exact toNat_ofNat_of_next addressable step
  have isState : (UInt64.ofNat s).toNat < d.stateCount := by
    rw [number]
    exact run_lt d.start_lt h
  rw [isAccepting_of_lt isState, number]

theorem queryMatch_eq (addressable : d.targets.size ≤ UInt64.size) (w : List σ) :
    d.queryMatch w = .ok (d.isMatch w) := by
  have run : d.queryRun (UInt64.ofNat d.start) w = .ok ((d.run d.start w).map UInt64.ofNat) :=
    queryRun_eq addressable d.start_lt
  rw [queryMatch, run, isMatch]
  cases here : d.run d.start w with
  | none => rfl
  | some s => exact isAccepting_of_run addressable here

/-! ## Constructed automata -/

/-- What can be asked of an automaton over a list of symbols. From a state, exactly these symbols
lead on, and they lead to states. Matching stays inside the table, whether by the automaton or by
the generic matcher. If the table can be addressed by words, queries about states are answered so,
and so are all queries that matching makes. -/
structure Safe (symbols : List σ) (d : Dfa σ) : Prop where
  next_of_mem : ∀ s < d.stateCount, ∀ c ∈ symbols, ∃ t < d.stateCount, d.next s c = some t
  next_of_not_mem : ∀ s < d.stateCount, ∀ c ∉ symbols, d.next s c = none
  run : ∀ w, d.Inside (d.run d.start w)
  generic : ∀ w : List σ, d.Inside (w.foldlM (fun s c => (GenericMatcher.ofDfa d).next c s)
    (GenericMatcher.ofDfa d).start)
  nextState : d.targets.size ≤ UInt64.size → ∀ s : UInt64, s.toNat < d.stateCount →
    ∀ c, d.nextState s c = .ok (d.next s.toNat c)
  queryRun : d.targets.size ≤ UInt64.size → ∀ w,
    d.queryRun (UInt64.ofNat d.start) w = .ok ((d.run d.start w).map UInt64.ofNat)
  queryMatch : d.targets.size ≤ UInt64.size → ∀ w, d.queryMatch w = .ok (d.isMatch w)

theorem Tabular.safe {symbols : List σ} (h : d.Tabular symbols) : d.Safe symbols where
  next_of_mem s hs c hc := by
    obtain ⟨t, step, ht⟩ := exists_next hs (h.mem_iff.mpr hc)
    exact ⟨t, ht, step⟩
  next_of_not_mem s _ c hc := next_eq_none (mt h.mem_iff.mp hc) s
  run := inside_run d
  generic := inside_run d
  nextState addressable s hs c := nextState_of_lt addressable hs c
  queryRun addressable _ := queryRun_eq addressable d.start_lt
  queryMatch addressable w := queryMatch_eq addressable w

/-- An automaton that was compiled or written down has a complete table, and whatever is looked up
there from a state is found: from a state, the symbols of the alphabet lead to states and all others
nowhere, and all runs stay inside the table. -/
theorem constructed_safe [Specialized σ] {symbols : List σ} {d : Dfa σ}
    (h : Constructed symbols d) : d.Tabular symbols ∧ d.Safe symbols :=
  ⟨h.tabular, h.tabular.safe⟩

/-- An automaton over two symbols, one of them named twice. -/
theorem constructed_safe_repeated :
    ∃ d : Dfa UInt8, Constructed [98, 97, 98] d ∧ d.alphabet.symbols.toList = [98, 97] ∧
      d.targets.size = d.stateCount * 2 ∧ (∃ t < d.stateCount, d.next 0 97 = some t) ∧
      d.next 0 99 = none := by
  obtain ⟨d, made⟩ : ∃ d, (Dfa.ofRegex (Regex.any : Regex UInt8) [98, 97, 98]).result = .ok d :=
    compile_unlimited {} rfl _ _
  have constructed : Constructed [98, 97, 98] d := .ofRegex made
  obtain ⟨table, safe⟩ := constructed_safe constructed
  have symbols : d.alphabet.symbols.toList = [98, 97] := table.alphabet
  refine ⟨d, constructed, symbols, ?_, safe.next_of_mem 0 table.states 97 (by simp),
    safe.next_of_not_mem 0 table.states 99 (by simp)⟩
  rw [table.entries, ← Array.length_toList, symbols]
  rfl

end Residual.Dfa
