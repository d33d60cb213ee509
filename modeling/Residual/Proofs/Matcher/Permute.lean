import Residual.Matcher.Permute
import Residual.Proofs.Automaton.Run

/-!
# The permutation matcher runs its automaton

`runs_ofDfa` finds the successors of the automaton in the lanes of the table, `Runs.run_eq_follow`
follows them along an input, which is what the folds of all lanes do, and `accepts_ofDfa` concludes
that the matcher and the automaton agree.
-/

namespace Residual.PermuteMatcher

variable {lanes : FoldingLanes} {d : Dfa UInt8} {m : PermuteMatcher lanes}

/-- The successors of all states, with a vector for every byte. -/
def tabulate (lanes : FoldingLanes) (d : Dfa UInt8) : PermuteMatcher lanes where
  table := Vector.ofFn fun b => rowOf lanes d (UInt8.ofNat b)
  start := UInt8.ofNat d.start
  accepting := d.acceptingStates.map UInt8.ofNat
  stateCount := d.stateCount

theorem ofDfa_eq (lanes : FoldingLanes) (d : Dfa UInt8) :
    ofDfa lanes d = (d.demand lanes.name lanes.width).map fun _ => tabulate lanes d := by
  unfold ofDfa Dfa.demand
  split
  · rfl
  · cases d.missingByte? <;> rfl

/-- There is a matcher for automata with a lane for every state and transitions for every byte. -/
theorem exists_ofDfa (small : d.stateCount ≤ lanes.width)
    (complete : ∀ b, b ∈ d.alphabet.symbols) : ∃ m, ofDfa lanes d = .ok m := by
  rw [ofDfa_eq, Dfa.demand_eq_ok.mpr ⟨small, complete⟩]
  exact ⟨tabulate lanes d, rfl⟩

/-- What is known of an automaton that a matcher was made of, and of the matcher. -/
structure Runs (m : PermuteMatcher lanes) (d : Dfa UInt8) : Prop where
  small : d.stateCount ≤ lanes.width
  complete : ∀ b, b ∈ d.alphabet.symbols
  stateCount : m.stateCount = d.stateCount
  /-- All lanes, also those that are no states, lead to lanes. -/
  closed : m.table.Closed lanes.width
  /-- The lane of a state holds its successor. -/
  table : ∀ b s : UInt8, s.toNat < d.stateCount →
    d.next s.toNat b = some (Lanes.extract (m.table.row b) s).toNat
  start : m.start = UInt8.ofNat d.start
  accepting : m.accepting = d.acceptingStates.map UInt8.ofNat

theorem extract_rowOf (d : Dfa UInt8) (b : UInt8) {s : UInt8} (hs : s.toNat < lanes.width) :
    Lanes.extract (rowOf lanes d b) s =
      if s.toNat < d.stateCount then UInt8.ofNat ((d.next s.toNat b).getD 0) else 0 := by
  rw [rowOf, Lanes.extract_ofFn _ hs]

/-- The lane of a state holds its successor, whole. -/
theorem next_eq_extract_rowOf (small : d.stateCount ≤ lanes.width)
    (complete : ∀ b, b ∈ d.alphabet.symbols) (b : UInt8) {s : UInt8}
    (hs : s.toNat < d.stateCount) :
    d.next s.toNat b = some (Lanes.extract (rowOf lanes d b) s).toNat := by
  obtain ⟨t, step, ht⟩ := Dfa.exists_next hs (complete b)
  have fits : (UInt8.ofNat t).toNat = t := Lanes.toNat_ofNat_lane (Nat.lt_of_lt_of_le ht small)
  rw [extract_rowOf d b (Nat.lt_of_lt_of_le hs small), if_pos hs, step, Option.getD_some, fits]

theorem extract_rowOf_lt (small : d.stateCount ≤ lanes.width)
    (complete : ∀ b, b ∈ d.alphabet.symbols) (b : UInt8) {s : UInt8} (hs : s.toNat < lanes.width) :
    (Lanes.extract (rowOf lanes d b) s).toNat < lanes.width := by
  by_cases state : s.toNat < d.stateCount
  · obtain ⟨t, step, ht⟩ := Dfa.exists_next state (complete b)
    rw [next_eq_extract_rowOf small complete b state] at step
    rw [Option.some.inj step]
    exact Nat.lt_of_lt_of_le ht small
  · rw [extract_rowOf d b hs, if_neg state]
    exact lanes.width_pos

theorem runs_ofDfa (h : ofDfa lanes d = .ok m) : m.Runs d := by
  obtain ⟨small, complete, rfl⟩ := Dfa.map_demand_eq_ok (ofDfa_eq lanes d ▸ h)
  have row (b : UInt8) : (tabulate lanes d).table.row b = rowOf lanes d b := by
    rw [Lanes.Table.row, tabulate, Lanes.get_ofFn, UInt8.ofNat_toNat]
  refine ⟨small, complete, rfl, ?_, ?_, rfl, rfl⟩
  · intro b s hs
    rw [row]
    exact extract_rowOf_lt small complete b hs
  · intro b s hs
    rw [row]
    exact next_eq_extract_rowOf small complete b hs

/-- Following the lanes of the table is running the automaton. -/
theorem Runs.run_eq_follow (runs : m.Runs d) {s : UInt8} (hs : s.toNat < d.stateCount)
    (input : List UInt8) : d.run s.toNat input = some (Lanes.follow m.table input s).toNat := by
  induction input generalizing s with
  | nil => rfl
  | cons b input ih =>
      obtain ⟨t, step, ht⟩ := Dfa.exists_next hs (runs.complete b)
      have lane := runs.table b s hs
      rw [lane] at step
      have inside : (Lanes.extract (m.table.row b) s).toNat < d.stateCount :=
        Option.some.inj step ▸ ht
      rw [Dfa.run_cons, lane, Option.bind_some, ih inside]
      rfl

/-- The final state is that of the automaton, however the input is taken up. -/
theorem Runs.run_eq_finalState (runs : m.Runs d) (input : List UInt8) :
    d.run d.start input = some (m.finalState input).toNat ∧
      d.run d.start input = some (m.finalStateOneByOne input).toNat := by
  have start : m.start.toNat = d.start := by
    rw [runs.start]
    exact Lanes.toNat_ofNat_lane (Nat.lt_of_lt_of_le d.start_lt runs.small)
  have state : m.start.toNat < d.stateCount := by
    rw [start]
    exact d.start_lt
  have lane : m.start.toNat < lanes.width := Nat.lt_of_lt_of_le state runs.small
  have run := runs.run_eq_follow state input
  rw [start] at run
  constructor
  · rw [run, finalState, lanes.fold_eq _ _ _ runs.closed lane]
  · rw [run, finalStateOneByOne, lanes.foldStepwise_eq _ _ _ runs.closed lane]

/-- The matcher accepts the inputs that its automaton matches. -/
theorem accepts_ofDfa (h : ofDfa lanes d = .ok m) (input : List UInt8) :
    m.accepts input = d.isMatch input := by
  have runs := runs_ofDfa h
  have small : d.stateCount ≤ 256 := Nat.le_trans runs.small lanes.width_le
  obtain ⟨t, run, ht⟩ := Dfa.exists_run d.start_lt fun b (_ : b ∈ input) => runs.complete b
  have final : m.finalState input = UInt8.ofNat t := by
    have same := (runs.run_eq_finalState input).1.symm.trans run
    rw [← Option.some.inj same, UInt8.ofNat_toNat]
  rw [accepts, final, runs.accepting, Dfa.contains_acceptingStates small ht, Dfa.isMatch, run,
    Option.any_some]

end Residual.PermuteMatcher
