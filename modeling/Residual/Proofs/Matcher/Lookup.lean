import Residual.Matcher.Lookup
import Residual.Proofs.Automaton.Run

/-!
# The table lookup matcher runs its automaton

`runs_ofDfa` finds in the table the successors that the automaton has, `Runs.foldlM_next` follows
them along an input, and `accepts_ofDfa` concludes that the matcher and the automaton agree.
-/

namespace Residual.LookupMatcher

variable {d : Dfa UInt8} {m : LookupMatcher}

/-- The successors of all states on all bytes, byte by byte. -/
def tabulate (d : Dfa UInt8) : LookupMatcher where
  table := (Dfa.allBytes.flatMap fun b => (List.range d.stateCount).map fun s =>
    UInt8.ofNat ((d.next s b).getD 0)).toArray
  stateCount := d.stateCount
  start := UInt8.ofNat d.start
  accepting := d.acceptingStates.map UInt8.ofNat

/-! ## Building the table

The table is built byte by byte, and the first byte without transitions ends it. As there is a
state to ask for, that is the smallest such byte.
-/

/-- Entries that there are make up a list. -/
theorem mapM_eq_ok {α β ε : Type} {f : α → Except ε β} {g : α → β} {xs : List α}
    (h : ∀ x ∈ xs, f x = .ok (g x)) : xs.mapM f = .ok (xs.map g) := by
  induction xs with
  | nil => rfl
  | cons x xs ih =>
      have tail := ih fun y hy => h y (List.mem_cons_of_mem _ hy)
      rw [List.mapM_cons, h x (List.mem_cons_self ..), tail]
      rfl

/-- The first entry that is an error is what the list comes to. -/
theorem mapM_eq_error {α β ε : Type} {f : α → Except ε β} {before after : List α} {x : α} {e : ε}
    (h : ∀ y ∈ before, ∃ b, f y = .ok b) (failed : f x = .error e) :
    (before ++ x :: after).mapM f = .error e := by
  induction before with
  | nil =>
      rw [List.nil_append, List.mapM_cons, failed]
      rfl
  | cons y before ih =>
      obtain ⟨b, entry⟩ := h y (List.mem_cons_self ..)
      have tail := ih fun z hz => h z (List.mem_cons_of_mem _ hz)
      rw [List.cons_append, List.mapM_cons, entry, tail]
      rfl

/-- The row of a byte with transitions. -/
theorem row_eq_ok {b : UInt8} (hb : b ∈ d.alphabet.symbols) :
    (List.range d.stateCount).mapM (entry d b) =
      .ok ((List.range d.stateCount).map fun s => UInt8.ofNat ((d.next s b).getD 0)) := by
  apply mapM_eq_ok
  intro s hs
  obtain ⟨t, step, -⟩ := Dfa.exists_next (List.mem_range.mp hs) hb
  rw [entry, step, Option.getD_some]

/-- The row of a byte without transitions has no first entry. -/
theorem row_eq_error {b : UInt8} (hb : b ∉ d.alphabet.symbols) :
    (List.range d.stateCount).mapM (entry d b) = .error (.incompleteAlphabet b) := by
  have failed : entry d b d.start = .error (.incompleteAlphabet b) := by
    rw [entry, Dfa.next_eq_none hb]
  obtain ⟨n, count⟩ : ∃ n, d.stateCount = n + 1 := Nat.exists_eq_add_one.mpr d.start_lt
  have first : List.range d.stateCount = [] ++ d.start :: (List.range n).map Nat.succ := by
    rw [count, List.range_succ_eq_map]
    rfl
  rw [first]
  exact mapM_eq_error (fun _ none => absurd none List.not_mem_nil) failed

theorem rows_eq_ok (complete : ∀ b, b ∈ d.alphabet.symbols) :
    rows d = .ok (Dfa.allBytes.map fun b =>
      (List.range d.stateCount).map fun s => UInt8.ofNat ((d.next s b).getD 0)) :=
  mapM_eq_ok fun b _ => row_eq_ok (complete b)

theorem rows_eq_error {missing : UInt8} (h : d.missingByte? = some missing) :
    rows d = .error (.incompleteAlphabet missing) := by
  obtain ⟨-, before, after, split, present⟩ := List.find?_eq_some_iff_append.mp h
  have absent := (Dfa.missingByte?_eq_some.mp h).1
  rw [rows, split]
  apply mapM_eq_error
  · intro b hb
    have here : b ∈ d.alphabet.symbols := Alphabet.contains_iff.mp (by simpa using present b hb)
    exact ⟨_, row_eq_ok here⟩
  · exact row_eq_error absent

theorem ofDfa_eq (d : Dfa UInt8) :
    ofDfa d = (d.demand "lookup" capacity).map fun _ => tabulate d := by
  unfold ofDfa Dfa.demand
  split
  · rfl
  · cases found : d.missingByte? with
    | some missing =>
        rw [rows_eq_error found]
        rfl
    | none =>
        rw [rows_eq_ok (Dfa.missingByte?_eq_none.mp found), tabulate, List.flatMap_def]
        rfl

/-! ## Running -/

/-- There is a matcher for small automata with transitions for every byte. -/
theorem exists_ofDfa (small : d.stateCount ≤ capacity) (complete : ∀ b, b ∈ d.alphabet.symbols) :
    ∃ m, ofDfa d = .ok m := by
  rw [ofDfa_eq, Dfa.demand_eq_ok.mpr ⟨small, complete⟩]
  exact ⟨tabulate d, rfl⟩

/-- What is known of an automaton that a matcher was made of, and of the matcher. -/
structure Runs (m : LookupMatcher) (d : Dfa UInt8) : Prop where
  small : d.stateCount ≤ 256
  complete : ∀ b, b ∈ d.alphabet.symbols
  stateCount : m.stateCount = d.stateCount
  /-- The successor of a state on a byte is where the matcher looks for it. -/
  table : ∀ (b : UInt8) (s : Nat), s < d.stateCount →
    m.table[b.toNat * m.stateCount + s]? = some (UInt8.ofNat ((d.next s b).getD 0))
  start : m.start = UInt8.ofNat d.start
  accepting : m.accepting = d.acceptingStates.map UInt8.ofNat

theorem runs_ofDfa (h : ofDfa d = .ok m) : m.Runs d := by
  obtain ⟨small, complete, rfl⟩ := Dfa.map_demand_eq_ok (ofDfa_eq d ▸ h)
  refine ⟨small, complete, rfl, ?_, rfl, rfl⟩
  intro b s hs
  show (List.toArray _)[b.toNat * d.stateCount + s]? = _
  rw [List.getElem?_toArray, getElem?_flatMap_range _ _ hs, Dfa.getElem?_allBytes,
    Option.map_some]

/-- Reading an input leads to the number of the state that it leads the automaton to. -/
theorem Runs.foldlM_next (runs : m.Runs d) {s : Nat} (hs : s < d.stateCount)
    (input : List UInt8) :
    ∃ t, d.run s input = some t ∧ t < d.stateCount ∧
      input.foldlM m.next (UInt8.ofNat s) = some (UInt8.ofNat t) := by
  induction input generalizing s with
  | nil => exact ⟨s, rfl, hs, rfl⟩
  | cons b input ih =>
      obtain ⟨t, step, ht⟩ := Dfa.exists_next hs (runs.complete b)
      have entry : m.next (UInt8.ofNat s) b = some (UInt8.ofNat t) := by
        rw [next, Dfa.toNat_ofNat_state runs.small hs, runs.table b s hs, step, Option.getD_some]
      rw [Dfa.run_cons, step, Option.bind_some, List.foldlM_cons, entry]
      exact ih ht

/-- The matcher accepts the inputs that its automaton matches. -/
theorem accepts_ofDfa (h : ofDfa d = .ok m) (input : List UInt8) :
    m.accepts input = d.isMatch input := by
  have runs := runs_ofDfa h
  obtain ⟨t, run, ht, fold⟩ := runs.foldlM_next d.start_lt input
  rw [accepts, runs.start, fold, Option.any_some, runs.accepting,
    Dfa.contains_acceptingStates runs.small ht, Dfa.isMatch, run, Option.any_some]

end Residual.LookupMatcher
