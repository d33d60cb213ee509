import Residual.Proofs.Automaton.Run

/-!
# Automata from functions

`Dfa.ofFunction` writes an automaton down entry by entry and stops at the first fault:

* **loops** — `Outcome`: a computation has a fault and names it, or it gets somewhere.
  `Outcome.foldlM`: a loop names the first fault of its items. Three loops write an automaton, over
  the states, over the transitions of each of them, and over the accepting states;
* **the table** — `Written`: so many entries are those of the function. A transition adds the next
  one (`Written.setTransition`), so that all are there in the end (`outcome_writeStates`);
* **the automaton** — `Follows`: it steps as the function does and accepts in the states of the
  list, unless there is a `Fault` (`outcome_ofFunction`);
* **its words** — `Follows.isMatch_iff`: the function reads them as the automaton does, symbol by
  symbol (`Follows.run`).
-/

namespace Residual

/-! ## Computations that may stop -/

section Outcomes

variable {α β γ ε : Type}

/-- What a computation comes to that may have a fault. -/
inductive Outcome (fault : ε → Prop) (reached : β → Prop) : Except ε β → Prop
  | done {b : β} (faultless : ∀ e, ¬ fault e) (here : reached b) : Outcome fault reached (.ok b)
  | stopped {e : ε} (found : fault e) : Outcome fault reached (.error e)

/-- The first item of a list that has a fault has this one. -/
inductive FirstFault (fault : α → ε → Prop) : List α → ε → Prop
  | here {a : α} {items : List α} {e : ε} (found : fault a e) : FirstFault fault (a :: items) e
  | later {a : α} {items : List α} {e : ε} (faultless : ∀ e, ¬ fault a e)
      (found : FirstFault fault items e) : FirstFault fault (a :: items) e

variable {fault : ε → Prop} {reached : β → Prop} {faultAt : α → ε → Prop}

namespace FirstFault

theorem cons_iff {a : α} {items : List α} {e : ε} :
    FirstFault faultAt (a :: items) e ↔
      faultAt a e ∨ (∀ e, ¬ faultAt a e) ∧ FirstFault faultAt items e := by
  constructor
  · rintro (found | ⟨faultless, found⟩)
    · exact .inl found
    · exact .inr ⟨faultless, found⟩
  · rintro (found | ⟨faultless, found⟩)
    · exact .here found
    · exact .later faultless found

/-- A list without a first fault is faultless. -/
theorem forall_not_iff {items : List α} :
    (∀ e, ¬ FirstFault faultAt items e) ↔ ∀ a ∈ items, ∀ e, ¬ faultAt a e := by
  induction items with
  | nil => exact ⟨fun _ _ member => absurd member List.not_mem_nil, nofun⟩
  | cons a items ih =>
      rw [List.forall_mem_cons, ← ih]
      constructor
      · intro none
        have faultless : ∀ e, ¬ faultAt a e := fun e found => none e (.here found)
        exact ⟨faultless, fun e found => none e (.later faultless found)⟩
      · rintro ⟨faultless, none⟩ e (found | ⟨-, found⟩)
        · exact faultless e found
        · exact none e found

/-- If an item has one fault at most, so has a list. -/
theorem unique {items : List α} {e e' : ε} (h : FirstFault faultAt items e)
    (h' : FirstFault faultAt items e')
    (single : ∀ a e e', faultAt a e → faultAt a e' → e = e') : e = e' := by
  induction h with
  | here found =>
      cases h' with
      | here found' => exact single _ _ _ found found'
      | later faultless _ => exact absurd found (faultless _)
  | later faultless _ ih =>
      cases h' with
      | here found' => exact absurd found' (faultless _)
      | later _ found' => exact ih found'

theorem map_iff (g : γ → α) {items : List γ} {e : ε} :
    FirstFault faultAt (items.map g) e ↔ FirstFault (fun c => faultAt (g c)) items e := by
  induction items with
  | nil => exact ⟨nofun, nofun⟩
  | cons c items ih => rw [List.map_cons, cons_iff, cons_iff, ih]

end FirstFault

namespace Outcome

/-- A computation that goes on has the fault of its first part, or else that of its second. -/
theorem bind {fault' : ε → Prop} {reached' : γ → Prop} {x : Except ε β} {f : β → Except ε γ}
    (h : Outcome fault reached x) (h' : ∀ b, reached b → Outcome fault' reached' (f b)) :
    Outcome (fun e => fault e ∨ (∀ e, ¬ fault e) ∧ fault' e) reached' (x >>= f) := by
  cases h with
  | stopped found => exact .stopped (.inl found)
  | @done b faultless here =>
      have second := h' b here
      change Outcome _ _ (f b)
      generalize f b = y at second ⊢
      cases second with
      | stopped found => exact .stopped (.inr ⟨faultless, found⟩)
      | done faultless' here' =>
          refine .done ?_ here'
          rintro e (found | ⟨-, found⟩)
          · exact faultless e found
          · exact faultless' e found

theorem congr_fault {fault' : ε → Prop} (same : ∀ e, fault e ↔ fault' e) {x : Except ε β}
    (h : Outcome fault reached x) : Outcome fault' reached x := by
  rwa [← funext fun e => propext (same e)]

theorem mono {reached' : β → Prop} (mono : ∀ b, reached b → reached' b) {x : Except ε β}
    (h : Outcome fault reached x) : Outcome fault reached' x := by
  cases h with
  | done faultless here => exact .done faultless (mono _ here)
  | stopped found => exact .stopped found

theorem exists_eq_ok {x : Except ε β} (h : Outcome fault reached x) :
    (∃ b, x = .ok b) ↔ ∀ e, ¬ fault e := by
  cases h with
  | done faultless _ => exact iff_of_true ⟨_, rfl⟩ faultless
  | @stopped e found => exact iff_of_false nofun fun none => none e found

theorem eq_error_iff (single : ∀ e e', fault e → fault e' → e = e') {x : Except ε β}
    (h : Outcome fault reached x) (e : ε) : x = .error e ↔ fault e := by
  cases h with
  | done faultless _ => exact iff_of_false nofun (faultless e)
  | stopped found =>
      rw [Except.error.injEq]
      exact ⟨fun same => same ▸ found, fun found' => single _ _ found found'⟩

theorem of_eq_ok {b : β} (h : Outcome fault reached (.ok b)) : reached b := by
  cases h with
  | done _ here => exact here

/-- A loop gets on from item to item, up to the first fault. The induction is on the items that
are left. -/
theorem foldlM (reached : List α → β → Prop) {items : List α} {f : β → α → Except ε β} {b : β}
    (start : reached [] b)
    (step : ∀ before a after b, items = before ++ a :: after → reached before b →
      Outcome (faultAt a) (reached (before ++ [a])) (f b a)) :
    Outcome (FirstFault faultAt items) (reached items) (items.foldlM f b) := by
  suffices ∀ todo before b, items = before ++ todo → reached before b →
      Outcome (FirstFault faultAt todo) (reached items) (todo.foldlM f b) from
    this items [] b rfl start
  intro todo
  induction todo with
  | nil =>
      intro before b split here
      obtain rfl : items = before := by simpa using split
      exact .done nofun here
  | cons a todo ih =>
      intro before b split here
      rw [List.foldlM_cons]
      apply ((step before a todo b split here).bind fun b' here' =>
        ih (before ++ [a]) b' (by simp [split]) here').congr_fault
      exact fun e => FirstFault.cons_iff.symm

/-- A loop over numbered items. -/
theorem foldlM_zipIdx (reached : Nat → β → Prop) {items : List α} {f : β → α × Nat → Except ε β}
    {b : β} (start : reached 0 b)
    (step : ∀ i a b, items[i]? = some a → reached i b →
      Outcome (faultAt a) (reached (i + 1)) (f b (a, i))) :
    Outcome (FirstFault faultAt items) (reached items.length) (items.zipIdx.foldlM f b) := by
  have loop : Outcome (FirstFault (fun item => faultAt item.1) items.zipIdx)
      (reached items.zipIdx.length) (items.zipIdx.foldlM f b) := by
    refine foldlM (fun before => reached before.length) start ?_
    rintro before ⟨a, i⟩ after b split here
    have place : items.zipIdx[before.length]? = some (a, i) := by simp [split]
    rw [List.getElem?_zipIdx, Option.map_eq_some_iff] at place
    obtain ⟨a, found, same⟩ := place
    cases same
    rw [Nat.zero_add, List.length_append, List.length_singleton]
    exact step _ a b found here
  rw [List.length_zipIdx] at loop
  apply loop.congr_fault
  intro e
  rw [← FirstFault.map_iff Prod.fst, List.zipIdx_map_fst]

/-- A loop over the numbers below another. -/
theorem foldlM_range (reached : Nat → β → Prop) {n : Nat} {faultAt : Nat → ε → Prop}
    {f : β → Nat → Except ε β} {b : β} (start : reached 0 b)
    (step : ∀ i < n, ∀ b, reached i b → Outcome (faultAt i) (reached (i + 1)) (f b i)) :
    Outcome (FirstFault faultAt (List.range n)) (reached n) ((List.range n).foldlM f b) := by
  have loop : Outcome (FirstFault faultAt (List.range n)) (reached (List.range n).length)
      ((List.range n).foldlM f b) := by
    refine foldlM (fun before => reached before.length) start ?_
    intro before i after b split here
    have place : (List.range n)[before.length]? = some i := by simp [split]
    obtain ⟨inside, same⟩ := List.getElem?_eq_some_iff.mp place
    rw [List.getElem_range] at same
    rw [List.length_range] at inside
    rw [← same, List.length_append, List.length_singleton]
    exact step _ inside b here
  rwa [List.length_range] at loop

end Outcome

end Outcomes

namespace Dfa

/-! ## Faults -/

variable {σ : Type} {symbols columns : List σ} {count : Nat} {next : σ → Nat → Nat}

/-- The number is not that of a state, and the error says so. -/
def NoState (count s : Nat) (error : BuildError) : Prop :=
  count ≤ s ∧ error = .invalidState s count

theorem forall_not_noState {s : Nat} : (∀ e, ¬ NoState count s e) ↔ s < count := by
  simp [NoState]

theorem NoState.unique {s : Nat} {e e' : BuildError} (h : NoState count s e)
    (h' : NoState count s e') : e = e' :=
  h.2.trans h'.2.symm

/-- The first of the symbols that leads from the state to no state. -/
def RowFault (columns : List σ) (count : Nat) (next : σ → Nat → Nat) (s : Nat) :
    BuildError → Prop :=
  FirstFault (fun c => NoState count (next c s)) columns

/-- The first transition that leads to no state, state by state. -/
def TableFault (columns : List σ) (count : Nat) (next : σ → Nat → Nat) : BuildError → Prop :=
  FirstFault (RowFault columns count next) (List.range count)

theorem RowFault.unique {s : Nat} {e e' : BuildError} (h : RowFault columns count next s e)
    (h' : RowFault columns count next s e') : e = e' :=
  FirstFault.unique h h' fun _ _ _ => NoState.unique

theorem TableFault.unique {e e' : BuildError} (h : TableFault columns count next e)
    (h' : TableFault columns count next e') : e = e' :=
  FirstFault.unique h h' fun _ _ _ => RowFault.unique

variable [Symbol σ]

theorem forall_not_tableFault :
    (∀ e, ¬ TableFault symbols.eraseDups count next e) ↔
      ∀ s < count, ∀ c ∈ symbols, next c s < count := by
  simp only [TableFault, RowFault, FirstFault.forall_not_iff, forall_not_noState, List.mem_range,
    List.mem_eraseDups]

/-! ## Writing -/

section Fields

variable (d : Dfa σ) (s column target : Nat) (isState : target < d.stateCount)

@[simp] theorem alphabet_setTransition :
    (d.setTransition s column target isState).alphabet = d.alphabet := by
  cases d
  rfl

@[simp] theorem accepting_setTransition :
    (d.setTransition s column target isState).accepting = d.accepting := by
  cases d
  rfl

@[simp] theorem targets_setTransition :
    (d.setTransition s column target isState).targets =
      d.targets.setIfInBounds (s * d.alphabet.size + column) target := by
  cases d
  rfl

@[simp] theorem alphabet_setAccepting : (d.setAccepting s).alphabet = d.alphabet := by
  cases d
  rfl

@[simp] theorem accepting_setAccepting :
    (d.setAccepting s).accepting = d.accepting.setIfInBounds s true := by
  cases d
  rfl

@[simp] theorem stateCount_setAccepting : (d.setAccepting s).stateCount = d.stateCount := by
  rw [stateCount, accepting_setAccepting, Array.size_setIfInBounds, stateCount]

@[simp] theorem next_setAccepting : (d.setAccepting s).next = d.next := by
  cases d
  rfl

end Fields

variable {alphabet : Alphabet σ}

/-- The first `n` entries of the table are those of a function, and no state accepts yet. -/
structure Written (alphabet : Alphabet σ) (count : Nat) (next : σ → Nat → Nat) (n : Nat)
    (d : Dfa σ) : Prop where
  columns : d.alphabet = alphabet
  rejecting : d.accepting = Array.replicate count false
  entry : ∀ s column c, s * alphabet.size + column < n → alphabet.symbols[column]? = some c →
    d.targets[s * alphabet.size + column]? = some (next c s)

theorem written_blank (alphabet : Alphabet σ) (pos : 0 < count) (next : σ → Nat → Nat) :
    (blank alphabet count pos).Written alphabet count next 0 :=
  ⟨rfl, rfl, fun _ _ _ none => absurd none (Nat.not_lt_zero _)⟩

theorem Written.stateCount {n : Nat} {d : Dfa σ} (h : d.Written alphabet count next n) :
    d.stateCount = count := by
  rw [Dfa.stateCount, h.rejecting, Array.size_replicate]

/-- The transition of the next column is the next entry of the table. -/
theorem Written.setTransition {s column : Nat} {c : σ} {d : Dfa σ}
    (h : d.Written alphabet count next (s * alphabet.size + column)) (hs : s < count)
    (hc : alphabet.symbols[column]? = some c) (isState : next c s < d.stateCount) :
    (d.setTransition s column (next c s) isState).Written alphabet count next
      (s * alphabet.size + (column + 1)) := by
  have inside {column : Nat} {c : σ} (hc : alphabet.symbols[column]? = some c) :
      column < alphabet.size := (Array.getElem?_eq_some_iff.mp hc).1
  refine ⟨?_, ?_, ?_⟩
  · rw [alphabet_setTransition, h.columns]
  · rw [accepting_setTransition, h.rejecting]
  · intro s' column' c' before hc'
    rw [targets_setTransition, h.columns]
    -- the entry is the one that is written, or it was there before
    by_cases place : s * alphabet.size + column = s' * alphabet.size + column'
    · obtain ⟨rfl, rfl⟩ := entry_inj (inside hc) (inside hc') place
      obtain rfl : c = c' := Option.some.inj (hc.symm.trans hc')
      have room : s * alphabet.size + column < d.targets.size := by
        rw [← h.columns]
        exact place_lt (h.stateCount.symm ▸ hs) (h.columns.symm ▸ inside hc)
      exact Array.getElem?_setIfInBounds_self_of_lt room
    · rw [Array.getElem?_setIfInBounds_ne place]
      exact h.entry s' column' c' (by omega) hc'

theorem outcome_writeTransition {s column : Nat} {c : σ} {d : Dfa σ}
    (h : d.Written alphabet count next (s * alphabet.size + column)) (hs : s < count)
    (hc : alphabet.symbols[column]? = some c) :
    Outcome (NoState count (next c s))
      (Written alphabet count next (s * alphabet.size + (column + 1)))
      (d.writeTransition next s (c, column)) := by
  unfold writeTransition
  dsimp only
  split
  · next isState =>
    exact .done (forall_not_noState.mpr (h.stateCount ▸ isState))
      (h.setTransition hs hc isState)
  · next isNone =>
    rw [h.stateCount] at isNone ⊢
    exact .stopped ⟨Nat.le_of_not_lt isNone, rfl⟩

/-- A state adds a row to the table. -/
theorem outcome_writeState {s : Nat} {d : Dfa σ}
    (h : d.Written alphabet count next (s * alphabet.size)) (hs : s < count) :
    Outcome (RowFault alphabet.symbols.toList count next s)
      (Written alphabet count next ((s + 1) * alphabet.size)) (d.writeState next s) := by
  rw [writeState, h.columns, Nat.succ_mul, Alphabet.size, ← Array.length_toList]
  apply Outcome.foldlM_zipIdx fun column =>
    Written alphabet count next (s * alphabet.symbols.toList.length + column)
  · exact h
  · intro column c d hc here
    apply outcome_writeTransition here hs
    rwa [← Array.getElem?_toList]

/-- The states, one after another, fill the table. -/
theorem outcome_writeStates (pos : 0 < count) :
    Outcome (TableFault alphabet.symbols.toList count next)
      (Written alphabet count next (count * alphabet.size))
      ((List.range count).foldlM (writeState next) (blank alphabet count pos)) := by
  apply Outcome.foldlM_range fun s => Written alphabet count next (s * alphabet.size)
  · rw [Nat.zero_mul]
    exact written_blank alphabet pos next
  · intro s hs d here
    exact outcome_writeState here hs

/-! ## Following a function -/

/-- The automaton steps as a function does and accepts in the states of a list. -/
structure Follows (symbols : List σ) (count : Nat) (next : σ → Nat → Nat) (accepting : List Nat)
    (d : Dfa σ) : Prop where
  reads : ∀ c, c ∈ d.alphabet.symbols ↔ c ∈ symbols
  states : d.stateCount = count
  steps : ∀ s < count, ∀ c ∈ symbols, d.next s c = some (next c s)
  accepts : ∀ s, d.accepts s = true ↔ s ∈ accepting

theorem Written.follows {d : Dfa σ}
    (h : d.Written (Alphabet.ofList symbols) count next
      (count * (Alphabet.ofList symbols).size)) :
    d.Follows symbols count next [] where
  reads c := by rw [h.columns, Alphabet.mem_symbols_ofList]
  states := h.stateCount
  steps s hs c hc := by
    cases found : (Alphabet.ofList symbols).column? c with
    | none =>
        exact absurd (Alphabet.mem_symbols_ofList.mpr hc) (Alphabet.column?_eq_none.mp found)
    | some column =>
        rw [Dfa.next, h.columns, found, Option.bind_some]
        exact h.entry s column c (entry_lt hs (Alphabet.column?_lt found))
          (Alphabet.column?_eq_some.mp found)
  accepts s := by
    rw [Dfa.accepts, h.rejecting]
    simp [Array.getD]

theorem accepts_setAccepting {d : Dfa σ} {s : Nat} (hs : s < d.stateCount) (t : Nat) :
    (d.setAccepting s).accepts t = true ↔ d.accepts t = true ∨ t = s := by
  rw [accepts, accepts, accepting_setAccepting, Array.getD_eq_getD_getElem?,
    Array.getD_eq_getD_getElem?]
  by_cases same : s = t
  · subst same
    rw [Array.getElem?_setIfInBounds_self_of_lt hs]
    simp
  · rw [Array.getElem?_setIfInBounds_ne same]
    simp [Ne.symm same]

/-- One more state accepts. -/
theorem outcome_writeAccepting {before : List Nat} {s : Nat} {d : Dfa σ}
    (h : d.Follows symbols count next before) :
    Outcome (NoState count s) (Follows symbols count next (before ++ [s]))
      (d.writeAccepting s) := by
  unfold writeAccepting
  split
  · next isState =>
    refine .done (forall_not_noState.mpr (h.states ▸ isState)) ⟨?_, ?_, ?_, ?_⟩
    · rw [alphabet_setAccepting]
      exact h.reads
    · rw [stateCount_setAccepting, h.states]
    · rw [next_setAccepting]
      exact h.steps
    · intro t
      rw [accepts_setAccepting isState, h.accepts, List.mem_append, List.mem_singleton]
  · next isNone =>
    rw [h.states] at isNone ⊢
    exact .stopped ⟨Nat.le_of_not_lt isNone, rfl⟩

/-- What is wrong with the description of an automaton: it has no states, or else a transition
leads to no state, or else a state that is none accepts. -/
inductive Fault (symbols : List σ) (count : Nat) (next : σ → Nat → Nat) (accepting : List Nat) :
    BuildError → Prop
  | states (none : count = 0) : Fault symbols count next accepting (.invalidState 0 0)
  | target {e : BuildError} (pos : 0 < count) (found : TableFault symbols.eraseDups count next e) :
      Fault symbols count next accepting e
  | accepting {e : BuildError} (pos : 0 < count)
      (targets : ∀ s < count, ∀ c ∈ symbols, next c s < count)
      (found : FirstFault (NoState count) accepting e) :
      Fault symbols count next accepting e

variable {accepting : List Nat}

theorem forall_not_fault :
    (∀ e, ¬ Fault symbols count next accepting e) ↔
      0 < count ∧ (∀ s < count, ∀ c ∈ symbols, next c s < count) ∧ ∀ a ∈ accepting, a < count := by
  have states_iff : (∀ a ∈ accepting, a < count) ↔
      ∀ e, ¬ FirstFault (NoState count) accepting e := by
    simp only [FirstFault.forall_not_iff, forall_not_noState]
  rw [states_iff]
  constructor
  · intro none
    have pos : 0 < count := Nat.pos_of_ne_zero fun zero => none _ (.states zero)
    have targets := forall_not_tableFault.mp fun e found => none e (.target pos found)
    exact ⟨pos, targets, fun e found => none e (.accepting pos targets found)⟩
  · rintro ⟨pos, targets, states⟩ e (zero | ⟨-, found⟩ | ⟨-, -, found⟩)
    · omega
    · exact forall_not_tableFault.mpr targets e found
    · exact states e found

/-- A description has one fault at most. -/
theorem Fault.unique {e e' : BuildError} (h : Fault symbols count next accepting e)
    (h' : Fault symbols count next accepting e') : e = e' := by
  cases h with
  | states none =>
      cases h' with
      | states _ => rfl
      | target pos _ => omega
      | accepting pos _ _ => omega
  | target pos found =>
      cases h' with
      | states none => omega
      | target _ found' => exact found.unique found'
      | accepting _ targets _ => exact absurd found (forall_not_tableFault.mpr targets _)
  | accepting pos targets found =>
      cases h' with
      | states none => omega
      | target _ found' => exact absurd found' (forall_not_tableFault.mpr targets _)
      | accepting _ _ found' =>
          exact found.unique found' fun _ _ _ => NoState.unique

/-- A description has a fault, or it comes to an automaton that is as it says. -/
theorem outcome_ofFunction (symbols : List σ) (count : Nat) (next : σ → Nat → Nat)
    (accepting : List Nat) :
    Outcome (Fault symbols count next accepting) (Follows symbols count next accepting)
      (ofFunction symbols count next accepting) := by
  unfold ofFunction
  split
  · next pos =>
    have table : Outcome (TableFault symbols.eraseDups count next) (Follows symbols count next [])
        ((List.range count).foldlM (writeState next)
          (blank (Alphabet.ofList symbols) count pos)) := by
      rw [← Alphabet.symbols_ofList]
      exact (outcome_writeStates pos).mono fun d => Written.follows
    apply (table.bind fun d here => Outcome.foldlM (Follows symbols count next) here
      fun before s after d _ => outcome_writeAccepting).congr_fault
    intro e
    constructor
    · rintro (found | ⟨targets, found⟩)
      · exact .target pos found
      · exact .accepting pos (forall_not_tableFault.mp targets) found
    · rintro (zero | ⟨-, found⟩ | ⟨-, targets, found⟩)
      · omega
      · exact .inl found
      · exact .inr ⟨forall_not_tableFault.mpr targets, found⟩
  · next zero =>
    exact .stopped (.states (by omega))

/-! ## The words of the automaton -/

/-- From a state, the automaton reads a word as the function does. -/
theorem Follows.run {d : Dfa σ} (h : d.Follows symbols count next accepting)
    (targets : ∀ s < count, ∀ c ∈ symbols, next c s < count) {w : List σ}
    (hw : ∀ c ∈ w, c ∈ symbols) {s : Nat} (hs : s < count) :
    d.run s w = some (w.foldl (fun s c => next c s) s) := by
  induction w generalizing s with
  | nil => rfl
  | cons c w ih =>
      have hc := hw c (List.mem_cons_self ..)
      rw [run_cons, h.steps s hs c hc, Option.bind_some, List.foldl_cons]
      exact ih (fun c hc => hw c (List.mem_cons_of_mem _ hc)) (targets s hs c hc)

/-- The words over the alphabet that the function reads into an accepting state are accepted. -/
theorem Follows.isMatch_iff {d : Dfa σ} (h : d.Follows symbols count next accepting)
    (targets : ∀ s < count, ∀ c ∈ symbols, next c s < count) (w : List σ) :
    d.isMatch w = true ↔
      (∀ c ∈ w, c ∈ symbols) ∧ w.foldl (fun s c => next c s) 0 ∈ accepting := by
  by_cases hw : ∀ c ∈ w, c ∈ symbols
  · have pos : 0 < count := h.states ▸ d.start_lt
    rw [isMatch, start, h.run targets hw pos, Option.any_some, h.accepts]
    exact (and_iff_right hw).symm
  · have outside : ∃ c ∈ w, c ∉ d.alphabet.symbols := by simpa [h.reads] using hw
    rw [isMatch_eq_false outside]
    exact iff_of_false Bool.false_ne_true fun all => hw all.1

/-- The accepting states are those of the list. -/
theorem Follows.mem_acceptingStates {d : Dfa σ} (h : d.Follows symbols count next accepting)
    (s : Nat) : s ∈ d.acceptingStates ↔ s ∈ accepting := by
  rw [acceptingStates, List.mem_filter, List.mem_range, h.accepts]
  refine and_iff_right_of_imp fun member => ?_
  have yes := (h.accepts s).mpr member
  by_contra outside
  rw [Dfa.accepts, Array.getD_eq_getD_getElem?,
    Array.getElem?_eq_none (Nat.le_of_not_lt outside), Option.getD_none] at yes
  exact Bool.false_ne_true yes

theorem pairwise_acceptingStates (d : Dfa σ) : d.acceptingStates.Pairwise (· < ·) :=
  List.pairwise_lt_range.filter _

/-- A description makes an automaton if it has states, all transitions lead to states, and all
accepting states are states. If not, the error is the first fault. The automaton accepts the words
over the alphabet that the function reads from the start state into an accepting state, and it
lists the accepting states in increasing order and without repetition. -/
theorem ofFunction_validates (symbols : List σ) (count : Nat) (next : σ → Nat → Nat)
    (accepting : List Nat) :
    ((∃ d, ofFunction symbols count next accepting = .ok d) ↔
      0 < count ∧ (∀ s < count, ∀ c ∈ symbols, next c s < count) ∧ ∀ a ∈ accepting, a < count) ∧
    (∀ e, ofFunction symbols count next accepting = .error e ↔
      Fault symbols count next accepting e) ∧
    ∀ d, ofFunction symbols count next accepting = .ok d →
      (∀ w, d.isMatch w = true ↔
        (∀ c ∈ w, c ∈ symbols) ∧ w.foldl (fun s c => next c s) 0 ∈ accepting) ∧
      d.acceptingStates.Pairwise (· < ·) ∧ ∀ s, s ∈ d.acceptingStates ↔ s ∈ accepting := by
  have outcome := outcome_ofFunction symbols count next accepting
  refine ⟨outcome.exists_eq_ok.trans forall_not_fault,
    outcome.eq_error_iff fun _ _ => Fault.unique, ?_⟩
  intro d made
  obtain ⟨-, targets, -⟩ := forall_not_fault.mp (outcome.exists_eq_ok.mp ⟨d, made⟩)
  rw [made] at outcome
  have follows := outcome.of_eq_ok
  exact ⟨follows.isMatch_iff targets, pairwise_acceptingStates d, follows.mem_acceptingStates⟩

/-- The words with an even number of one symbol, and a description in which the second state has a
successor that is no state. -/
theorem ofFunction_validates_parity :
    (∃ d : Dfa UInt8,
      ofFunction [97, 98, 97] 2 (fun c s => if c = 97 then 1 - s else s) [0, 0] = .ok d ∧
      d.isMatch [97, 98, 97] = true ∧ d.isMatch [98, 97] = false ∧ d.isMatch [99] = false ∧
      ∀ s, s ∈ d.acceptingStates ↔ s = 0) ∧
    ofFunction [(97 : UInt8), 98] 2 (fun c s => if c = 98 ∧ s = 1 then 7 else s) [5] =
      .error (.invalidState 7 2) := by
  constructor
  · obtain ⟨made, -, result⟩ := ofFunction_validates [(97 : UInt8), 98, 97] 2
      (fun c s => if c = 97 then 1 - s else s) [0, 0]
    obtain ⟨d, here⟩ := made.mpr ⟨by simp, fun s hs c _ => by split <;> omega, by simp⟩
    obtain ⟨words, -, states⟩ := result d here
    refine ⟨d, here, (words _).mpr (by simp), ?_, ?_, fun s => by simpa using states s⟩
    · exact Bool.eq_false_iff.mpr fun yes => absurd ((words _).mp yes) (by simp)
    · exact Bool.eq_false_iff.mpr fun yes => absurd ((words _).mp yes) (by simp)
  · obtain ⟨-, fails, -⟩ := ofFunction_validates [(97 : UInt8), 98] 2
      (fun c s => if c = 98 ∧ s = 1 then 7 else s) [5]
    apply (fails _).mpr
    -- the first row is in order, and so is the first entry of the second
    refine .target (by simp) (.later ?_ (.here (.later ?_ (.here ⟨by simp, rfl⟩))))
    · exact FirstFault.forall_not_iff.mpr fun c hc => forall_not_noState.mpr (by simp)
    · exact forall_not_noState.mpr (by simp)

end Dfa

end Residual
