import Mathlib.Data.List.Induction
import Residual.Automaton.Dfa

/-!
# Runs of automata

What an automaton does on a word, for any automaton and any alphabet:

* **alphabets** — `Alphabet.mem_symbols_ofList`: removing repetitions loses no symbol, and
  `Alphabet.symbols_ofList`: it keeps first occurrences;
* **steps** — `exists_next`: from a state, a symbol of the alphabet leads to a state, and
  `next_eq_none`: any other symbol leads nowhere;
* **runs** — `exists_run` and `run_eq_none`: the same for words;
* **bytes** — `demand_eq_ok`: which automata have what a table of bytes can hold.
-/

namespace Residual

variable {σ : Type} [Symbol σ]

/-! ## Tables by rows -/

/-- An entry of a row is an entry of the table. -/
theorem entry_lt {row rows column width : Nat} (hrow : row < rows) (hcolumn : column < width) :
    row * width + column < rows * width :=
  calc row * width + column
    _ < row * width + width := Nat.add_lt_add_left hcolumn _
    _ = (row + 1) * width := (Nat.succ_mul _ _).symm
    _ ≤ rows * width := Nat.mul_le_mul_right _ hrow

/-- The row and the column of an entry can be told from its place. -/
theorem entry_place (row : Nat) {column width : Nat} (hcolumn : column < width) :
    (row * width + column) / width = row ∧ (row * width + column) % width = column := by
  rw [Nat.mul_comm]
  constructor
  · rw [Nat.mul_add_div (by omega), Nat.div_eq_of_lt hcolumn, Nat.add_zero]
  · rw [Nat.mul_add_mod, Nat.mod_eq_of_lt hcolumn]

/-- Different entries have different places. -/
theorem entry_inj {row row' column column' width : Nat} (hcolumn : column < width)
    (hcolumn' : column' < width) (same : row * width + column = row' * width + column') :
    row = row' ∧ column = column' := by
  obtain ⟨quotient, remainder⟩ := entry_place row hcolumn
  obtain ⟨quotient', remainder'⟩ := entry_place row' hcolumn'
  exact ⟨by rw [← quotient, same, quotient'], by rw [← remainder, same, remainder']⟩

/-- The entries of a table that is written down row by row. -/
theorem getElem?_flatMap_range {α β : Type} (f : α → Nat → β) (rows : List α)
    {row column width : Nat} (hcolumn : column < width) :
    (rows.flatMap fun a => (List.range width).map (f a))[row * width + column]? =
      rows[row]?.map fun a => f a column := by
  induction rows generalizing row with
  | nil => simp
  | cons a rows ih =>
      rw [List.flatMap_cons]
      -- the entry is in the first row, or that much further on
      cases row with
      | zero =>
          rw [List.getElem?_append_left (by simpa using hcolumn)]
          simp [hcolumn]
      | succ row =>
          have behind : (row + 1) * width + column - width = row * width + column := by
            rw [Nat.succ_mul]
            omega
          rw [List.getElem?_append_right (by rw [Nat.succ_mul]; simp; omega), List.length_map,
            List.length_range, behind, ih, List.getElem?_cons_succ]

/-! ## Alphabets -/

namespace Alphabet

theorem column?_eq_none {a : Alphabet σ} {c : σ} : a.column? c = none ↔ c ∉ a.symbols := by
  constructor
  · intro absent member
    obtain ⟨i, inside, here⟩ := Array.mem_iff_getElem.mp member
    have found : a.column? c = some i :=
      column?_eq_some.mpr (Array.getElem?_eq_some_iff.mpr ⟨inside, here⟩)
    rw [absent] at found
    exact absurd found (by simp)
  · intro absent
    cases found : a.column? c with
    | none => rfl
    | some i => exact absurd (Array.mem_of_getElem? (column?_eq_some.mp found)) absent

theorem contains_iff {a : Alphabet σ} {c : σ} : a.contains c = true ↔ c ∈ a.symbols := by
  rw [contains, Option.isSome_iff_ne_none, ne_eq, column?_eq_none, Classical.not_not]

theorem symbols_insert (a : Alphabet σ) (c : σ) :
    (a.insert c).symbols = if c ∈ a.symbols then a.symbols else a.symbols.push c := by
  unfold insert
  split
  · next new =>
    rw [if_neg (column?_eq_none.mp new)]
    cases a
    rfl
  · next old => rw [if_pos (by simpa [column?_eq_none] using old)]

theorem mem_symbols_insert {a : Alphabet σ} {c d : σ} :
    d ∈ (a.insert c).symbols ↔ d ∈ a.symbols ∨ d = c := by
  rw [symbols_insert]
  split
  · next old => exact ⟨.inl, fun h => h.elim id fun eq => eq ▸ old⟩
  · exact Array.mem_push

theorem mem_symbols_foldl_insert {cs : List σ} {a : Alphabet σ} {d : σ} :
    d ∈ (cs.foldl insert a).symbols ↔ d ∈ a.symbols ∨ d ∈ cs := by
  induction cs generalizing a with
  | nil => simp
  | cons c cs ih => rw [List.foldl_cons, ih, mem_symbols_insert, List.mem_cons, or_assoc]

/-- The symbols of a list are the symbols of the alphabet made of it. -/
theorem mem_symbols_ofList {cs : List σ} {d : σ} : d ∈ (ofList cs).symbols ↔ d ∈ cs := by
  rw [ofList, mem_symbols_foldl_insert]
  simp [empty]

/-- The symbols of a list have columns in the order of their first occurrences. -/
theorem symbols_ofList (symbols : List σ) :
    (ofList symbols).symbols.toList = symbols.eraseDups := by
  induction symbols using List.reverseRecOn with
  | nil => rfl
  | append_singleton symbols c ih =>
      have last : ofList (symbols ++ [c]) = (ofList symbols).insert c := by
        rw [ofList, List.foldl_append]
        rfl
      rw [last, symbols_insert, List.eraseDups_append]
      split
      · next old => simp [ih, List.removeAll, mem_symbols_ofList.mp old]
      · next new => simp [ih, List.removeAll, mt mem_symbols_ofList.mpr new, List.eraseDups_cons]

end Alphabet

/-! ## Steps and runs -/

namespace Dfa

/-- The table has an entry for every state and every column. -/
theorem place_lt {d : Dfa σ} {s column : Nat} (hs : s < d.stateCount)
    (hcolumn : column < d.alphabet.size) : s * d.alphabet.size + column < d.targets.size := by
  rw [d.targets_size]
  exact entry_lt hs hcolumn

/-- From a state, every symbol of the alphabet leads to a state. -/
theorem exists_next {d : Dfa σ} {s : Nat} {c : σ} (hs : s < d.stateCount)
    (hc : c ∈ d.alphabet.symbols) : ∃ t, d.next s c = some t ∧ t < d.stateCount := by
  cases found : d.alphabet.column? c with
  | none => exact absurd hc (Alphabet.column?_eq_none.mp found)
  | some column =>
      have inside := place_lt hs (Alphabet.column?_lt found)
      refine ⟨d.targets[s * d.alphabet.size + column], ?_, d.target_lt _ (Array.getElem_mem inside)⟩
      rw [next, found, Option.bind_some, Array.getElem?_eq_getElem inside]

theorem next_eq_none {d : Dfa σ} {c : σ} (hc : c ∉ d.alphabet.symbols) (s : Nat) :
    d.next s c = none := by
  rw [next, Alphabet.column?_eq_none.mpr hc, Option.bind_none]

@[simp] theorem run_nil (d : Dfa σ) (s : Nat) : d.run s [] = some s :=
  rfl

theorem run_cons (d : Dfa σ) (s : Nat) (c : σ) (w : List σ) :
    d.run s (c :: w) = (d.next s c).bind fun t => d.run t w :=
  rfl

/-- From a state, every word over the alphabet leads to a state. -/
theorem exists_run {d : Dfa σ} {s : Nat} {w : List σ} (hs : s < d.stateCount)
    (hw : ∀ c ∈ w, c ∈ d.alphabet.symbols) : ∃ t, d.run s w = some t ∧ t < d.stateCount := by
  induction w generalizing s with
  | nil => exact ⟨s, rfl, hs⟩
  | cons c w ih =>
      obtain ⟨t, step, ht⟩ := exists_next hs (hw c (List.mem_cons_self ..))
      rw [run_cons, step, Option.bind_some]
      exact ih ht fun e he => hw e (List.mem_cons_of_mem _ he)

/-- A word with a symbol outside the alphabet leads nowhere. -/
theorem run_eq_none {d : Dfa σ} {w : List σ} (hw : ∃ c ∈ w, c ∉ d.alphabet.symbols) (s : Nat) :
    d.run s w = none := by
  obtain ⟨c, member, outside⟩ := hw
  induction w generalizing s with
  | nil => exact absurd member List.not_mem_nil
  | cons e w ih =>
      rw [run_cons]
      -- the run ends at the symbol at the latest
      rcases List.mem_cons.mp member with rfl | member
      · rw [next_eq_none outside, Option.bind_none]
      · cases d.next s e with
        | none => rfl
        | some t => exact ih t member

theorem isMatch_eq_false {d : Dfa σ} {w : List σ} (hw : ∃ c ∈ w, c ∉ d.alphabet.symbols) :
    d.isMatch w = false := by
  rw [isMatch, run_eq_none hw, Option.any_none]

theorem start_lt (d : Dfa σ) : d.start < d.stateCount :=
  d.accepting_size_pos

theorem mem_acceptingStates {d : Dfa σ} {s : Nat} (hs : s < d.stateCount) :
    s ∈ d.acceptingStates ↔ d.accepts s = true := by
  simp [acceptingStates, hs]

theorem lt_of_mem_acceptingStates {d : Dfa σ} {s : Nat} (h : s ∈ d.acceptingStates) :
    s < d.stateCount := by
  rw [acceptingStates, List.mem_filter, List.mem_range] at h
  exact h.1

/-! ## Automata over bytes -/

theorem mem_allBytes (b : UInt8) : b ∈ allBytes :=
  List.mem_map.mpr ⟨b.toNat, List.mem_range.mpr b.toNat_lt, by simp⟩

theorem getElem?_allBytes (b : UInt8) : allBytes[b.toNat]? = some b := by
  have inside : b.toNat < 256 := b.toNat_lt
  simp [allBytes, inside]

theorem missingByte?_eq_none {d : Dfa UInt8} :
    d.missingByte? = none ↔ ∀ b, b ∈ d.alphabet.symbols := by
  rw [missingByte?, List.find?_eq_none]
  constructor
  · intro h b
    simpa [Alphabet.contains_iff] using h b (mem_allBytes b)
  · intro h b _
    simpa [Alphabet.contains_iff] using h b

/-- The smallest byte without transitions. -/
theorem missingByte?_eq_some {d : Dfa UInt8} {b : UInt8} :
    d.missingByte? = some b ↔ b ∉ d.alphabet.symbols ∧ ∀ c < b, c ∈ d.alphabet.symbols := by
  have absent_iff (c : UInt8) : (!d.alphabet.contains c) = true ↔ c ∉ d.alphabet.symbols := by
    simp [← Alphabet.contains_iff]
  have present_iff (c : UInt8) : (!!d.alphabet.contains c) = true ↔ c ∈ d.alphabet.symbols := by
    simp [← Alphabet.contains_iff]
  rw [missingByte?, allBytes, List.find?_map, Option.map_eq_some_iff]
  simp only [List.find?_range_eq_some, Function.comp_apply, absent_iff, present_iff]
  constructor
  · rintro ⟨i, ⟨absent, inside, before⟩, rfl⟩
    have number : (UInt8.ofNat i).toNat = i := by
      have := List.mem_range.mp inside
      rw [UInt8.toNat_ofNat']
      omega
    refine ⟨absent, ?_⟩
    intro c below
    rw [UInt8.lt_iff_toNat_lt, number] at below
    simpa using before c.toNat below
  · rintro ⟨absent, before⟩
    refine ⟨b.toNat, ⟨by simpa using absent, List.mem_range.mpr b.toNat_lt, ?_⟩, UInt8.ofNat_toNat⟩
    intro j below
    apply before
    have := b.toNat_lt
    rw [UInt8.lt_iff_toNat_lt, UInt8.toNat_ofNat']
    omega

/-- The demands that table matchers make on an automaton: no more states than they have room for,
and transitions for every byte. The number of states is looked at first. -/
def demand (name : String) (capacity : Nat) (d : Dfa UInt8) : Except BuildError Unit :=
  if capacity < d.stateCount then .error (.capacity name capacity d.stateCount)
  else
    match d.missingByte? with
    | some missing => .error (.incompleteAlphabet missing)
    | none => .ok ()

theorem demand_eq_ok {name : String} {capacity : Nat} {d : Dfa UInt8} :
    d.demand name capacity = .ok () ↔
      d.stateCount ≤ capacity ∧ ∀ b, b ∈ d.alphabet.symbols := by
  rw [← missingByte?_eq_none, demand]
  split
  · next large =>
    constructor
    · intro failed
      cases failed
    · intro ⟨small, _⟩
      omega
  · next small =>
    cases d.missingByte? with
    | some missing => simp
    | none => simpa using small

theorem map_demand_eq_ok {α : Type} {name : String} {capacity : Nat} {d : Dfa UInt8} {a m : α}
    (h : ((d.demand name capacity).map fun _ => a) = .ok m) :
    d.stateCount ≤ capacity ∧ (∀ b, b ∈ d.alphabet.symbols) ∧ a = m := by
  cases met : d.demand name capacity with
  | error e =>
      rw [met] at h
      cases h
  | ok =>
      obtain ⟨small, complete⟩ := demand_eq_ok.mp met
      rw [met] at h
      exact ⟨small, complete, Except.ok.inj h⟩

/-- A byte can number the states of a small automaton. -/
theorem toNat_ofNat_state {d : Dfa UInt8} {s : Nat} (small : d.stateCount ≤ 256)
    (hs : s < d.stateCount) : (UInt8.ofNat s).toNat = s := by
  rw [UInt8.toNat_ofNat']
  omega

/-- Whether a state accepts can be looked up among the numbers of the accepting states. -/
theorem contains_acceptingStates {d : Dfa UInt8} {s : Nat} (small : d.stateCount ≤ 256)
    (hs : s < d.stateCount) :
    (d.acceptingStates.map UInt8.ofNat).contains (UInt8.ofNat s) = d.accepts s := by
  rw [Bool.eq_iff_iff, List.contains_iff_mem, List.mem_map, ← mem_acceptingStates hs]
  constructor
  · rintro ⟨t, member, same⟩
    have ht : t < d.stateCount := lt_of_mem_acceptingStates member
    have numbers := congrArg UInt8.toNat same
    rw [toNat_ofNat_state small ht, toNat_ofNat_state small hs] at numbers
    exact numbers ▸ member
  · intro member
    exact ⟨s, member, rfl⟩

end Dfa

end Residual
