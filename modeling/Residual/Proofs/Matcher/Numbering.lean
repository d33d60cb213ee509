import Mathlib.Order.Interval.Set.Nat
import Mathlib.Order.WellFounded
import Residual.Proofs.Automaton.Discovery
import Residual.Proofs.Matcher.Compile

/-!
# The numbers of the states

The states of a compiled automaton are the derivatives of the regex, each of them once, in the order
of the first words that lead to them. `Dfa.Enumerates` says so of any automaton, and
`Dfa.compile_enumerates` of those that are compiled. There is no other automaton of this kind
(`Dfa.Enumerates.unique`), so that nothing is left to how derivatives are looked up on the way.
-/

namespace Residual

variable {σ : Type} [Symbol σ]

namespace Alphabet

theorem before_congr {a b : Alphabet σ} (same : a.symbols = b.symbols) : a.Before = b.Before := by
  have columns (c : σ) (i : Nat) : a.column? c = some i ↔ b.column? c = some i := by
    rw [column?_eq_some, column?_eq_some, same]
  funext c d
  simp only [Before, columns]

end Alphabet

namespace Dfa

/-- The states of the automaton are the derivatives of a regex by the words over some symbols, and
`regexOf` tells which state is which of them. -/
structure Enumerates (d : Dfa σ) (root : Regex σ) (symbols : List σ) (regexOf : Nat → Regex σ) :
    Prop where
  /-- Symbols have columns in the order of their first occurrences. -/
  columns : d.alphabet.symbols.toList = symbols.eraseDups
  /-- Every derivative is one state. -/
  states : Set.BijOn regexOf (Set.Iio d.stateCount) (root.residuals symbols)
  /-- The start stands for the regex itself. -/
  start : regexOf d.start = root
  /-- A transition leads to the derivative by its symbol. -/
  next : ∀ s < d.stateCount, ∀ c ∈ symbols, ∃ t < d.stateCount, d.next s c = some t ∧
    regexOf t = (regexOf s).derivative c
  /-- A state accepts when its derivative matches the empty word. -/
  accepts : ∀ s < d.stateCount, d.accepts s = (regexOf s).nullable
  /-- There is a first word to every state. -/
  reached : ∀ s < d.stateCount, ∃ w, d.FirstWord s w
  /-- States are numbered in the order of their first words. -/
  ordered : ∀ i j v w, d.FirstWord i v → d.FirstWord j w →
    (i < j ↔ List.Shortlex d.alphabet.Before v w)

namespace Enumerates

variable {d d' : Dfa σ} {root : Regex σ} {symbols : List σ} {regexOf regexOf' : Nat → Regex σ}

theorem mem_symbols (h : d.Enumerates root symbols regexOf) {c : σ} :
    c ∈ d.alphabet.symbols ↔ c ∈ symbols := by
  rw [← Array.mem_toList_iff, h.columns, List.mem_eraseDups]

/-- A word leads to the derivative by the word. -/
theorem run (h : d.Enumerates root symbols regexOf) {s : Nat} (hs : s < d.stateCount) {w : List σ}
    (hw : ∀ c ∈ w, c ∈ symbols) : ∃ t < d.stateCount, d.run s w = some t ∧
      regexOf t = (regexOf s).residual w := by
  induction w generalizing s with
  | nil => exact ⟨s, hs, rfl, rfl⟩
  | cons c w ih =>
      obtain ⟨t, ht, step, stands⟩ := h.next s hs c (hw c (List.mem_cons_self ..))
      obtain ⟨u, hu, run, last⟩ := ih ht fun e he => hw e (List.mem_cons_of_mem _ he)
      refine ⟨u, hu, ?_, ?_⟩
      · rw [run_cons, step, Option.bind_some, run]
      · rw [last, stands]
        rfl

/-- The words to a state can be told from its derivative alone. -/
theorem run_eq_some (h : d.Enumerates root symbols regexOf) {s : Nat} (hs : s < d.stateCount)
    {w : List σ} : d.run d.start w = some s ↔
      (∀ c ∈ w, c ∈ symbols) ∧ root.residual w = regexOf s := by
  constructor
  · intro leads
    have inside : ∀ c ∈ w, c ∈ symbols := by
      by_contra outside
      rw [run_eq_none (by simpa [h.mem_symbols] using outside)] at leads
      cases leads
    obtain ⟨t, -, run, stands⟩ := h.run d.start_lt inside
    obtain rfl : s = t := Option.some.inj (leads.symm.trans run)
    exact ⟨inside, by rw [stands, h.start]⟩
  · rintro ⟨inside, residual⟩
    obtain ⟨t, ht, run, stands⟩ := h.run d.start_lt inside
    have same : regexOf t = regexOf s := by rw [stands, h.start, residual]
    rw [run, h.states.injOn ht hs same]

/-- States that stand for one derivative have one first word. -/
theorem firstWord (h : d.Enumerates root symbols regexOf) (h' : d'.Enumerates root symbols regexOf')
    {s s' : Nat} (hs : s < d.stateCount) (hs' : s' < d'.stateCount)
    (same : regexOf' s' = regexOf s) {w : List σ} (hw : d.FirstWord s w) : d'.FirstWord s' w := by
  have alphabet : d'.alphabet.symbols = d.alphabet.symbols :=
    Array.toList_inj.mp (h'.columns.trans h.columns.symm)
  have leads (v : List σ) : d'.run d'.start v = some s' ↔ d.run d.start v = some s := by
    rw [h'.run_eq_some hs', h.run_eq_some hs, same]
  constructor
  · exact (leads w).mpr hw.leads
  · intro v hv
    rw [Alphabet.before_congr alphabet]
    exact hw.least v ((leads v).mp hv)

/-- Numbers of derivatives are in one order in all automata. -/
theorem lt_of_lt (h : d.Enumerates root symbols regexOf) (h' : d'.Enumerates root symbols regexOf')
    {i j i' j' : Nat} (hi : i < d.stateCount) (hj : j < d.stateCount) (hi' : i' < d'.stateCount)
    (hj' : j' < d'.stateCount) (samei : regexOf' i' = regexOf i) (samej : regexOf' j' = regexOf j)
    (lt : i < j) : i' < j' := by
  have alphabet : d'.alphabet.symbols = d.alphabet.symbols :=
    Array.toList_inj.mp (h'.columns.trans h.columns.symm)
  obtain ⟨v, hv⟩ := h.reached i hi
  obtain ⟨w, hw⟩ := h.reached j hj
  have before := (h.ordered i j v w hv hw).mp lt
  rw [← Alphabet.before_congr alphabet] at before
  exact (h'.ordered i' j' v w (h.firstWord h' hi hi' samei hv)
    (h.firstWord h' hj hj' samej hw)).mpr before

theorem stateCount_eq (h : d.Enumerates root symbols regexOf)
    (h' : d'.Enumerates root symbols regexOf') : d'.stateCount = d.stateCount := by
  rw [← Set.ncard_Iio_nat d'.stateCount, ← Set.ncard_Iio_nat d.stateCount, h'.states.ncard_eq,
    h.states.ncard_eq]

/-- The number of a derivative is the same in all automata. -/
theorem regexOf_eq (h : d.Enumerates root symbols regexOf)
    (h' : d'.Enumerates root symbols regexOf') {s : Nat} (hs : s < d.stateCount) :
    regexOf' s = regexOf s := by
  have number (i : Fin d.stateCount) : ∃ i' < d'.stateCount, regexOf' i' = regexOf i :=
    h'.states.surjOn (h.states.mapsTo i.isLt)
  choose other bound same using number
  -- both ways of numbering are increasing and use the same numbers
  have increasing : StrictMono other := fun i j lt =>
    h.lt_of_lt h' i.isLt j.isLt (bound i) (bound j) (same i) (same j) lt
  have range : Set.range other = Set.range (Fin.val : Fin d.stateCount → Nat) := by
    ext t
    constructor
    · rintro ⟨i, rfl⟩
      exact ⟨⟨other i, h.stateCount_eq h' ▸ bound i⟩, rfl⟩
    · rintro ⟨i, rfl⟩
      have hi : i.val < d'.stateCount := (h.stateCount_eq h').symm ▸ i.isLt
      obtain ⟨t, ht, stands⟩ := h.states.surjOn (h'.states.mapsTo hi)
      refine ⟨⟨t, ht⟩, h'.states.injOn (bound _) hi ?_⟩
      rw [same, ← stands]
  have equal := (increasing.range_inj fun _ _ lt => lt).mp range
  have value := same ⟨s, hs⟩
  rwa [equal] at value

/-- There is no more than one automaton of this kind. -/
theorem unique (h : d.Enumerates root symbols regexOf) (h' : d'.Enumerates root symbols regexOf') :
    d'.stateCount = d.stateCount ∧ ∀ s < d.stateCount, regexOf' s = regexOf s ∧
      d'.accepts s = d.accepts s ∧ ∀ c, d'.next s c = d.next s c := by
  refine ⟨h.stateCount_eq h', ?_⟩
  intro s hs
  have hs' : s < d'.stateCount := h.stateCount_eq h' ▸ hs
  have stands := h.regexOf_eq h' hs
  refine ⟨stands, ?_, ?_⟩
  · rw [h'.accepts s hs', h.accepts s hs, stands]
  · intro c
    by_cases inside : c ∈ symbols
    · obtain ⟨t, ht, step, derived⟩ := h.next s hs c inside
      obtain ⟨t', ht', step', derived'⟩ := h'.next s hs' c inside
      have same : regexOf t' = regexOf t := by
        rw [← h.regexOf_eq h' (h.stateCount_eq h' ▸ ht'), derived', stands, derived]
      rw [step, step', h.states.injOn (h.stateCount_eq h' ▸ ht' : t' < d.stateCount) ht same]
    · rw [next_eq_none (mt h'.mem_symbols.mp inside), next_eq_none (mt h.mem_symbols.mp inside)]

end Enumerates

end Dfa

/-! ## Compiled automata -/

namespace Exploration

variable {root : Regex σ} {symbols : List σ} {e : Exploration root}

/-- The derivative that was found under a number. -/
def regexOf (e : Exploration root) (s : Nat) : Regex σ :=
  e.found.getD s root

theorem getElem?_found {s : Nat} (hs : s < e.found.size) : e.found[s]? = some (e.regexOf s) := by
  rw [regexOf, Array.getElem?_eq_getElem hs, Array.getD, dif_pos hs]
  rfl

theorem regexOf_eq {s : Nat} {r : Regex σ} (h : e.found[s]? = some r) : e.regexOf s = r := by
  have hs : s < e.found.size := (Array.getElem?_eq_some_iff.mp h).1
  rw [getElem?_found hs] at h
  exact Option.some.inj h

theorem bijOn_regexOf (traced : e.Traced symbols) (complete : e.Complete symbols) :
    Set.BijOn e.regexOf (Set.Iio e.found.size) (root.residuals symbols) := by
  refine ⟨?_, ?_, ?_⟩
  · intro s hs
    exact (traced.mem_found_iff complete).mp (Array.mem_of_getElem? (getElem?_found hs))
  · intro s hs t ht same
    -- one derivative has one number
    have numbers := (e.index_eq_some _ s).mpr (getElem?_found hs)
    rw [same, (e.index_eq_some _ t).mpr (getElem?_found ht)] at numbers
    exact (Option.some.inj numbers).symm
  · intro r hr
    obtain ⟨s, here⟩ := Array.mem_iff_getElem?.mp ((traced.mem_found_iff complete).mpr hr)
    exact ⟨s, (Array.getElem?_eq_some_iff.mp here).1, regexOf_eq here⟩

theorem enumerates_toDfa (complete : e.Complete (Alphabet.ofList symbols).symbols.toList)
    (traced : e.Traced (Alphabet.ofList symbols).symbols.toList)
    (numbered : e.Numbered (Alphabet.ofList symbols).symbols.toList) :
    (e.toDfa (Alphabet.ofList symbols) complete).Enumerates root symbols e.regexOf := by
  have bf := breadthFirst_toDfa complete numbered
  have count : (e.toDfa (Alphabet.ofList symbols) complete).stateCount = e.found.size :=
    Array.size_map
  refine ⟨Alphabet.symbols_ofList symbols, ?_, regexOf_eq traced.first, ?_, ?_,
    fun s hs => ⟨_, bf.firstWord_access hs⟩, fun i j v w => bf.lt_iff_shortlex⟩
  · rw [count, ← root.residuals_ofList]
    exact bijOn_regexOf traced complete
  · intro s hs c hc
    rw [count] at hs ⊢
    have derived : ∃ t, (e.toDfa (Alphabet.ofList symbols) complete).next s c = some t ∧
        e.found[t]? = some ((e.regexOf s).derivative c) :=
      next_toDfa traced (getElem?_found hs) (Alphabet.mem_symbols_ofList.mpr hc)
    obtain ⟨t, step, here⟩ := derived
    exact ⟨t, (Array.getElem?_eq_some_iff.mp here).1, step, regexOf_eq here⟩
  · intro s hs
    rw [count] at hs
    exact accepts_toDfa (getElem?_found hs)

end Exploration

namespace Dfa

/-- The states of a compiled automaton are the derivatives of the regex by words over the alphabet,
each of them once, with the transitions and the accepting states that this asks for. They are
numbered in the shortlex order of the first words that lead to them, and only this automaton is. -/
theorem compile_enumerates {config : Config} {r : Regex σ} {symbols : List σ} {d : Dfa σ}
    (h : (compile config r symbols).result = .ok d) :
    ∃ regexOf, d.Enumerates r symbols regexOf ∧
      ∀ (d' : Dfa σ) (regexOf' : Nat → Regex σ), d'.Enumerates r symbols regexOf' →
        d'.stateCount = d.stateCount ∧ ∀ s < d.stateCount, regexOf' s = regexOf s ∧
          d'.accepts s = d.accepts s ∧ ∀ c, d'.next s c = d.next s c := by
  obtain ⟨e, complete, explored, rfl⟩ := compile_eq_ok h
  have enumerates := Exploration.enumerates_toDfa complete
    (Exploration.traced_ofRegex explored) (Exploration.numbered_ofRegex explored)
  exact ⟨_, enumerates, fun _ _ => enumerates.unique⟩

/-- An alphabet in an order of its own and with a repetition. -/
theorem compile_enumerates_star :
    ∃ d, (Dfa.ofRegex (Regex.single 97).star ([98, 97, 98] : List UInt8)).result = .ok d ∧
      ∃ regexOf, d.Enumerates (Regex.single 97).star [98, 97, 98] regexOf ∧
        d.next 0 97 = some 0 := by
  obtain ⟨d, compiled⟩ :=
    compile_unlimited {} rfl (Regex.single 97).star ([98, 97, 98] : List UInt8)
  obtain ⟨regexOf, enumerates, -⟩ := compile_enumerates compiled
  refine ⟨d, compiled, regexOf, enumerates, ?_⟩
  obtain ⟨t, ht, step, derived⟩ := enumerates.next 0 d.start_lt 97 (by simp)
  have again : regexOf t = regexOf d.start := by
    rw [derived]
    show (regexOf d.start).derivative 97 = regexOf d.start
    rw [enumerates.start]
    rfl
  rw [step, enumerates.states.injOn ht d.start_lt again]
  rfl

end Dfa

end Residual
