import Residual.Proofs.Matcher.Selection

/-!
# Byte matchers agree

A byte automaton can be run by table lookup, by permuting lanes of any kind and by following its
transitions. What these matchers have in common:

* **demands** — `Dfa.MadeWithin`: a matcher with room for so many states is made of exactly the
  automata that fit and have transitions for every byte, and anything else is refused with its
  reason;
* **numbers** — `LookupMatcher.Represents` and `PermuteMatcher.Represents`: bytes hold the numbers
  of all states whole, and reading stays among them;
* **answers** — all of them accept what the automaton matches (`byte_matchers_agree`).
-/

namespace Residual

/-! ## Demands -/

namespace Dfa

/-- How an attempt to make a matcher with room for `capacity` states ends. -/
structure MadeWithin {α : Type} (d : Dfa UInt8) (name : String) (capacity : Nat)
    (made : Except BuildError α) : Prop where
  /-- A matcher is made if the states fit and every byte has transitions, and only then. -/
  made_iff : (∃ m, made = .ok m) ↔ d.stateCount ≤ capacity ∧ ∀ b, b ∈ d.alphabet.symbols
  /-- Too many states are the reason whatever the alphabet is. -/
  too_many : capacity < d.stateCount → made = .error (.capacity name capacity d.stateCount)
  /-- Otherwise the reason is the smallest byte without transitions. -/
  missing : d.stateCount ≤ capacity → (∃ b, b ∉ d.alphabet.symbols) →
    ∃ b, b ∉ d.alphabet.symbols ∧ (∀ c < b, c ∈ d.alphabet.symbols) ∧
      made = .error (.incompleteAlphabet b)

variable {d : Dfa UInt8} {name : String} {capacity : Nat}

theorem demand_of_lt (large : capacity < d.stateCount) :
    d.demand name capacity = .error (.capacity name capacity d.stateCount) :=
  if_pos large

theorem demand_of_missing (small : d.stateCount ≤ capacity) {b : UInt8}
    (h : d.missingByte? = some b) : d.demand name capacity = .error (.incompleteAlphabet b) := by
  rw [demand, if_neg (Nat.not_lt.mpr small), h]

/-- A matcher that is made whenever the demands are met. -/
theorem madeWithin_map_demand {α : Type} (m : α) :
    d.MadeWithin name capacity ((d.demand name capacity).map fun _ => m) := by
  refine ⟨?_, ?_, ?_⟩
  · constructor
    · rintro ⟨m', made⟩
      obtain ⟨small, complete, -⟩ := map_demand_eq_ok made
      exact ⟨small, complete⟩
    · intro met
      rw [demand_eq_ok.mpr met]
      exact ⟨m, rfl⟩
  · intro large
    rw [demand_of_lt large]
    rfl
  · rintro small ⟨b, absent⟩
    cases found : d.missingByte? with
    | none => exact absurd (missingByte?_eq_none.mp found b) absent
    | some least =>
        obtain ⟨absent, before⟩ := missingByte?_eq_some.mp found
        refine ⟨least, absent, before, ?_⟩
        rw [demand_of_missing small found]
        rfl

/-- The numbers of the accepting states survive being written as bytes. -/
theorem map_toNat_acceptingStates (small : d.stateCount ≤ 256) :
    (d.acceptingStates.map UInt8.ofNat).map UInt8.toNat = d.acceptingStates := by
  have whole : ∀ s ∈ d.acceptingStates, (UInt8.toNat ∘ UInt8.ofNat) s = id s := by
    intro s member
    exact toNat_ofNat_state small (lt_of_mem_acceptingStates member)
  rw [List.map_map, List.map_congr_left whole, List.map_id]

end Dfa

/-! ## Numbers -/

variable {d : Dfa UInt8}

/-- The matcher holds the automaton, and reading an input never leaves its table. -/
structure LookupMatcher.Represents (m : LookupMatcher) (d : Dfa UInt8) : Prop where
  start : m.start.toNat = d.start
  accepting : m.accepting.map UInt8.toNat = d.acceptingStates
  /-- Every entry is the successor of its state, whole. -/
  entry : ∀ (b : UInt8) (s : Nat), s < d.stateCount →
    ∃ t, m.table[b.toNat * m.stateCount + s]? = some t ∧ d.next s b = some t.toNat
  /-- Every input leads to the number of the state that it leads the automaton to. -/
  reads : ∀ input, ∃ t, input.foldlM m.next m.start = some t ∧ d.run d.start input = some t.toNat
  accepts : ∀ input, m.accepts input = d.isMatch input

theorem LookupMatcher.represents_ofDfa {m : LookupMatcher} (h : ofDfa d = .ok m) :
    m.Represents d := by
  have runs := runs_ofDfa h
  refine ⟨?_, ?_, ?_, ?_, accepts_ofDfa h⟩
  · rw [runs.start]
    exact Dfa.toNat_ofNat_state runs.small d.start_lt
  · rw [runs.accepting]
    exact Dfa.map_toNat_acceptingStates runs.small
  · intro b s hs
    obtain ⟨t, step, ht⟩ := Dfa.exists_next hs (runs.complete b)
    refine ⟨_, runs.table b s hs, ?_⟩
    rw [step, Option.getD_some, Dfa.toNat_ofNat_state runs.small ht]
  · intro input
    obtain ⟨t, run, ht, fold⟩ := runs.foldlM_next d.start_lt input
    refine ⟨UInt8.ofNat t, ?_, ?_⟩
    · rw [runs.start, fold]
    · rw [run, Dfa.toNat_ofNat_state runs.small ht]

/-- The matcher holds the automaton, and both ways of folding end in the automaton's state. -/
structure PermuteMatcher.Represents {lanes : FoldingLanes} (m : PermuteMatcher lanes)
    (d : Dfa UInt8) : Prop where
  start : m.start.toNat = d.start
  accepting : m.accepting.map UInt8.toNat = d.acceptingStates
  /-- Every lane of a state holds its successor, whole. -/
  lane : ∀ (b : UInt8) (s : Nat), s < d.stateCount →
    ∃ t, (m.table.row b)[s]? = some t ∧ d.next s b = some t.toNat
  finalState : ∀ input, d.run d.start input = some (m.finalState input).toNat
  finalStateOneByOne : ∀ input, d.run d.start input = some (m.finalStateOneByOne input).toNat
  accepts : ∀ input, m.accepts input = d.isMatch input

theorem PermuteMatcher.represents_ofDfa {lanes : FoldingLanes} {m : PermuteMatcher lanes}
    (h : ofDfa lanes d = .ok m) : m.Represents d := by
  have runs := runs_ofDfa h
  have small : d.stateCount ≤ 256 := Nat.le_trans runs.small lanes.width_le
  refine ⟨?_, ?_, ?_, fun input => (runs.run_eq_finalState input).1,
    fun input => (runs.run_eq_finalState input).2, accepts_ofDfa h⟩
  · rw [runs.start]
    exact Dfa.toNat_ofNat_state small d.start_lt
  · rw [runs.accepting]
    exact Dfa.map_toNat_acceptingStates small
  · intro b s hs
    have number : (UInt8.ofNat s).toNat = s := Dfa.toNat_ofNat_state small hs
    have lane_lt : s < lanes.width := Nat.lt_of_lt_of_le hs runs.small
    have successor := runs.table b (UInt8.ofNat s) (by rwa [number])
    rw [Lanes.extract_eq _ (by rwa [number])] at successor
    simp only [number] at successor
    exact ⟨(m.table.row b)[s], Vector.getElem?_eq_getElem lane_lt, successor⟩

/-! ## Answers -/

/-- Table lookup has room for 256 states and permutation for as many as there are lanes. Both are
made of exactly the automata that fit and have transitions for every byte, and refuse others for
the number of states first and then for the smallest byte without transitions. Whatever is made,
and the generic matcher of any automaton, accepts what the automaton matches. -/
theorem byte_matchers_agree (d : Dfa UInt8) :
    (d.MadeWithin "lookup" 256 (LookupMatcher.ofDfa d) ∧
      ∀ m, LookupMatcher.ofDfa d = .ok m → m.Represents d) ∧
    (∀ lanes : FoldingLanes,
      d.MadeWithin lanes.name lanes.width (PermuteMatcher.ofDfa lanes d) ∧
        ∀ m, PermuteMatcher.ofDfa lanes d = .ok m → m.Represents d) ∧
    ∀ input, (GenericMatcher.ofDfa d).accepts input = d.isMatch input := by
  refine ⟨⟨?_, ?_⟩, ?_, ?_⟩
  · rw [LookupMatcher.ofDfa_eq]
    exact Dfa.madeWithin_map_demand _
  · intro m made
    exact LookupMatcher.represents_ofDfa made
  · intro lanes
    constructor
    · rw [PermuteMatcher.ofDfa_eq]
      exact Dfa.madeWithin_map_demand _
    · intro m made
      exact PermuteMatcher.represents_ofDfa made
  · exact GenericMatcher.accepts_ofDfa d

end Residual
