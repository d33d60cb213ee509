import Mathlib.Data.List.Shortlex
import Residual.Proofs.Automaton.Exploration

/-!
# The order of discovery

A breadth-first search numbers states as it discovers them, so that the table of transitions tells
the order:

* **tables** — `Dfa.BreadthFirst`: every state but the start is discovered by an entry in the row of
  a smaller state, and all entries before that one lead to smaller states;
* **searches** — `Numbered`: this is so at any time of an exploration, and
  `breadthFirst_toDfa` for its automaton;
* **words** — `BreadthFirst.access_le`: the word by which a state is discovered comes before all
  words that lead to this state or to a larger one. Shorter words come first, and words of one
  length by the columns of their symbols.

Hence states are numbered in the order of their first words (`BreadthFirst.lt_iff_shortlex`).
-/

namespace Residual

/-! ## Longer words in shortlex order -/

section Words

variable {α : Type} {before : α → α → Prop} {u v : List α}

theorem lex_concat (same : u.length = v.length) (h : List.Lex before u v) (a b : α) :
    List.Lex before (u ++ [a]) (v ++ [b]) := by
  induction h with
  | nil => simp at same
  | rel first => exact .rel first
  | cons _ ih => exact .cons (ih (by simpa using same))

/-- Words that differ in order do so whatever symbols come behind them. -/
theorem shortlex_concat (h : List.Shortlex before u v) (a b : α) :
    List.Shortlex before (u ++ [a]) (v ++ [b]) := by
  rcases List.shortlex_def.mp h with shorter | ⟨same, lex⟩
  · exact .of_length_lt (by simpa using shorter)
  · exact .of_lex (by simpa using same) (lex_concat same lex a b)

end Words

/-! ## Entries that discover states -/

/-- The entry `k` of a table leads to the state `j`, and all entries before it to smaller states. -/
structure Discovers (targets : Array Nat) (k j : Nat) : Prop where
  here : targets[k]? = some j
  before : ∀ l < k, ∀ t, targets[l]? = some t → t < j

namespace Discovers

variable {targets : Array Nat} {j k : Nat}

/-- Whatever leads to the state or to a larger one stands at the entry or behind it. -/
theorem le (h : Discovers targets k j) {l t : Nat} (entry : targets[l]? = some t) (le : j ≤ t) :
    k ≤ l := by
  apply Nat.le_of_not_lt
  intro earlier
  exact absurd (h.before l earlier t entry) (Nat.not_lt.mpr le)

theorem push (h : Discovers targets k j) (t : Nat) : Discovers (targets.push t) k j := by
  have inside : k < targets.size := (Array.getElem?_eq_some_iff.mp h.here).1
  have kept (l : Nat) (hl : l ≤ k) : (targets.push t)[l]? = targets[l]? := by
    have old : l < targets.size := Nat.lt_of_le_of_lt hl inside
    rw [Array.getElem?_push_lt old, Array.getElem?_eq_getElem old]
  refine ⟨(kept k (Nat.le_refl k)).trans h.here, ?_⟩
  intro l earlier s entry
  rw [kept l (Nat.le_of_lt earlier)] at entry
  exact h.before l earlier s entry

/-- The next entry of a table discovers a state that is larger than all before. -/
theorem push_size (below : ∀ t ∈ targets, t < j) : Discovers (targets.push j) targets.size j := by
  refine ⟨Array.getElem?_push_size, ?_⟩
  intro l earlier t entry
  rw [Array.getElem?_push_lt earlier] at entry
  obtain rfl := Option.some.inj entry
  exact below _ (Array.getElem_mem earlier)

/-- The entry is the first one that leads to its state. -/
theorem idxOf_eq (h : Discovers targets k j) : targets.toList.idxOf j = k := by
  have entry : targets.toList[k]? = some j := by
    rw [Array.getElem?_toList, h.here]
  have first : targets[targets.toList.idxOf j]? = some j := by
    rw [← Array.getElem?_toList]
    exact List.getElem?_idxOf (List.mem_of_getElem? entry)
  apply Nat.le_antisymm
  · have taken : j ∈ targets.toList.take (k + 1) :=
      List.mem_of_getElem? ((List.getElem?_take_of_lt (Nat.lt_succ_self k)).trans entry)
    exact Nat.le_of_lt_succ ((List.mem_take_iff_idxOf_lt (List.mem_of_getElem? entry)).mp taken)
  · exact h.le first (Nat.le_refl j)

end Discovers

variable {σ : Type} [Symbol σ]

/-! ## First words -/

/-- The symbol `c` has a smaller column than `d`. -/
def Alphabet.Before (a : Alphabet σ) (c d : σ) : Prop :=
  ∃ i j, a.column? c = some i ∧ a.column? d = some j ∧ i < j

instance (a : Alphabet σ) : Std.Asymm a.Before where
  asymm := by
    rintro c d ⟨i, j, hi, hj, lt⟩ ⟨j', i', hj', hi', gt⟩
    obtain rfl : i = i' := Option.some.inj (hi.symm.trans hi')
    obtain rfl : j = j' := Option.some.inj (hj.symm.trans hj')
    exact Nat.lt_asymm lt gt

namespace Dfa

variable {d : Dfa σ}

/-- The word leads from the start to the state, and no word before it does. Shorter words come
before longer ones, and words of one length are compared by the columns of their symbols, the first
symbols first. -/
structure FirstWord (d : Dfa σ) (s : Nat) (w : List σ) : Prop where
  leads : d.run d.start w = some s
  least : ∀ v, d.run d.start v = some s → ¬ List.Shortlex d.alphabet.Before v w

/-- Every state but the start is discovered by an entry in the row of a smaller state. -/
def BreadthFirst (d : Dfa σ) : Prop :=
  ∀ j, 0 < j → j < d.stateCount → ∃ k, Discovers d.targets k j ∧ k < j * d.alphabet.size

/-- The word by which a state is discovered: that of the state in whose row it occurs first, and the
symbol of the column. -/
def access (d : Dfa σ) (s : Nat) : List σ :=
  let entry := d.targets.toList.idxOf s
  if _ : entry / d.alphabet.size < s then
    d.access (entry / d.alphabet.size) ++ (d.alphabet.symbols[entry % d.alphabet.size]?).toList
  else []
termination_by s

theorem access_start (d : Dfa σ) : d.access d.start = [] := by
  rw [access]
  exact dif_neg (Nat.not_lt_zero _)

/-- A step to the right end of a word. -/
theorem run_concat (d : Dfa σ) (s : Nat) (w : List σ) (c : σ) :
    d.run s (w ++ [c]) = (d.run s w).bind fun t => d.next t c := by
  rw [run, List.foldlM_append]
  show ((d.run s w).bind fun t => (d.next t c).bind some) = _
  simp

theorem next_eq_some {s t : Nat} {c : σ} : d.next s c = some t ↔
    ∃ i, d.alphabet.column? c = some i ∧ d.targets[s * d.alphabet.size + i]? = some t := by
  rw [next, Option.bind_eq_some_iff]

theorem run_lt {s t : Nat} {w : List σ} (hs : s < d.stateCount) (h : d.run s w = some t) :
    t < d.stateCount := by
  by_cases inside : ∀ c ∈ w, c ∈ d.alphabet.symbols
  · obtain ⟨t', run, bound⟩ := exists_run hs inside
    rw [h] at run
    exact Option.some.inj run ▸ bound
  · rw [run_eq_none (by simpa using inside)] at h
    cases h

namespace BreadthFirst

/-- A state but the start is discovered from a smaller one. -/
theorem exists_parent (bf : d.BreadthFirst) {j : Nat} (pos : 0 < j) (hj : j < d.stateCount) :
    ∃ p i c, p < j ∧ d.alphabet.column? c = some i ∧
      Discovers d.targets (p * d.alphabet.size + i) j ∧ d.access j = d.access p ++ [c] := by
  obtain ⟨k, found, row⟩ := bf j pos hj
  have width : 0 < d.alphabet.size := by
    apply Nat.pos_of_ne_zero
    intro none
    rw [none, Nat.mul_zero] at row
    exact absurd row (Nat.not_lt_zero k)
  have smaller : k / d.alphabet.size < j := (Nat.div_lt_iff_lt_mul width).mpr row
  have inside : k % d.alphabet.size < d.alphabet.symbols.size := Nat.mod_lt _ width
  have symbol := Array.getElem?_eq_getElem inside
  refine ⟨k / d.alphabet.size, k % d.alphabet.size, _, smaller,
    Alphabet.column?_eq_some.mpr symbol, ?_, ?_⟩
  · rwa [Nat.div_add_mod']
  · rw [access]
    simp only [found.idxOf_eq]
    rw [dif_pos smaller, symbol]
    rfl

/-- The word by which a state is discovered leads there. -/
theorem run_access (bf : d.BreadthFirst) {j : Nat} (hj : j < d.stateCount) :
    d.run d.start (d.access j) = some j := by
  induction j using Nat.strongRecOn with
  | ind j ih =>
      rcases Nat.eq_zero_or_pos j with rfl | pos
      · show d.run d.start (d.access d.start) = some d.start
        rw [access_start, run_nil]
      · obtain ⟨p, i, c, smaller, column, found, word⟩ := bf.exists_parent pos hj
        rw [word, run_concat, ih p smaller (Nat.lt_trans smaller hj), Option.bind_some]
        exact next_eq_some.mpr ⟨i, column, found.here⟩

/-- No word to a state, or to a larger one, comes before the word by which the state is discovered.
The induction is on the word from its end: its last step is an entry of the table, and the state was
discovered there or before. -/
theorem access_le (bf : d.BreadthFirst) {v : List σ} {p q : Nat} (hq : d.run d.start v = some q)
    (le : p ≤ q) :
    d.access p = v ∨ List.Shortlex d.alphabet.Before (d.access p) v := by
  induction v using List.reverseRecOn generalizing p q with
  | nil =>
      obtain rfl : 0 = q := Option.some.inj hq
      obtain rfl : p = 0 := Nat.le_zero.mp le
      exact .inl d.access_start
  | append_singleton v x ih =>
      rcases Nat.eq_zero_or_pos p with rfl | pos
      · have empty : d.access 0 = [] := d.access_start
        rw [empty]
        exact .inr (.of_length_lt (by simp))
      · have hp : p < d.stateCount := Nat.lt_of_le_of_lt le (run_lt d.start_lt hq)
        rw [run_concat, Option.bind_eq_some_iff] at hq
        obtain ⟨q', hq', step⟩ := hq
        obtain ⟨j, column', entry⟩ := next_eq_some.mp step
        obtain ⟨p', i, c, smaller, column, found, word⟩ := bf.exists_parent pos hp
        have place : p' * d.alphabet.size + i ≤ q' * d.alphabet.size + j := found.le entry le
        have row : p' ≤ q' := by
          apply Nat.le_of_not_lt
          intro above
          have := entry_lt above (Alphabet.column?_lt column')
          omega
        rw [word]
        rcases ih hq' row with rfl | earlier
        · -- the same state with the same word, so that the columns decide
          have run := bf.run_access (Nat.lt_trans smaller hp)
          obtain rfl : p' = q' := Option.some.inj (run.symm.trans hq')
          rcases Nat.lt_or_eq_of_le (Nat.le_of_add_le_add_left place) with lt | rfl
          · right
            apply List.Shortlex.append_left
            rw [List.shortlex_singleton_iff]
            exact ⟨i, j, column, column', lt⟩
          · left
            have symbol := Alphabet.column?_eq_some.mp column
            rw [Alphabet.column?_eq_some.mp column'] at symbol
            rw [Option.some.inj symbol]
        · exact .inr (shortlex_concat earlier c x)

theorem firstWord_access (bf : d.BreadthFirst) {s : Nat} (hs : s < d.stateCount) :
    d.FirstWord s (d.access s) where
  leads := bf.run_access hs
  least v hv before := by
    rcases bf.access_le hv (Nat.le_refl s) with same | after
    · rw [same] at before
      exact Std.Irrefl.irrefl v before
    · exact Std.Asymm.asymm _ _ before after

theorem eq_access (bf : d.BreadthFirst) {s : Nat} {w : List σ} (h : d.FirstWord s w) :
    w = d.access s := by
  have hs : s < d.stateCount := run_lt d.start_lt h.leads
  rcases bf.access_le h.leads (Nat.le_refl s) with same | before
  · exact same.symm
  · exact absurd before (h.least _ (bf.run_access hs))

/-- States are numbered in the order of their first words. -/
theorem lt_iff_shortlex (bf : d.BreadthFirst) {i j : Nat} {v w : List σ} (hv : d.FirstWord i v)
    (hw : d.FirstWord j w) : i < j ↔ List.Shortlex d.alphabet.Before v w := by
  have precedes {i j : Nat} {v w : List σ} (hv : d.FirstWord i v) (hw : d.FirstWord j w)
      (lt : i < j) : List.Shortlex d.alphabet.Before v w := by
    rcases bf.access_le hw.leads (Nat.le_of_lt lt) with same | before
    · have run := hv.leads
      rw [bf.eq_access hv, same, hw.leads] at run
      exact absurd (Option.some.inj run) (Nat.ne_of_gt lt)
    · rwa [bf.eq_access hv]
  constructor
  · exact precedes hv hw
  · intro before
    rcases Nat.lt_trichotomy i j with lt | rfl | gt
    · exact lt
    · rw [bf.eq_access hv, bf.eq_access hw] at before
      exact absurd before (Std.Irrefl.irrefl _)
    · exact absurd (precedes hw hv gt) (Std.Asymm.asymm _ _ before)

end BreadthFirst

end Dfa

/-! ## Explorations -/

namespace Exploration

variable {root : Regex σ} {limit : Option Nat} {symbols : List σ}

/-- Every derivative but the root was discovered by an entry in the row of one found before it. -/
def Numbered (symbols : List σ) (e : Exploration root) : Prop :=
  ∀ j, 0 < j → j < e.found.size → ∃ k, Discovers e.targets k j ∧ k < j * symbols.length

theorem numbered_start (root : Regex σ) (symbols : List σ) : (start root).Numbered symbols := by
  intro j pos inside
  have one : (start root).found.size = 1 := rfl
  omega

theorem Numbered.visit : Kept limit symbols fun e : Exploration root => e.Numbered symbols := by
  intro e e' s column r c reached numbered rows hr hc visited j pos inside
  have old (t : Nat) (h : j < e.found.size) :
      ∃ k, Discovers (e.targets.push t) k j ∧ k < j * symbols.length := by
    obtain ⟨k, found, row⟩ := numbered j pos h
    exact ⟨k, found.push t, row⟩
  rcases visit_cases visited with ⟨t, -, found, targets⟩ | ⟨-, -, found, targets⟩
  · rw [targets]
    rw [found] at inside
    exact old t inside
  · rw [targets]
    rw [found, Array.size_push] at inside
    rcases Nat.lt_or_eq_of_le (Nat.le_of_lt_succ inside) with h | rfl
    · exact old e.found.size h
    · -- the new entry stands in the row of `s`, which has been found
      refine ⟨e.targets.size, Discovers.push_size e.target_lt, ?_⟩
      rw [rows]
      exact entry_lt (Array.getElem?_eq_some_iff.mp hr).1 (List.getElem?_eq_some_iff.mp hc).1

theorem numbered_ofRegex {result : { e : Exploration root // e.Complete symbols }}
    (h : ofRegex limit symbols root = .ok result) : result.1.Numbered symbols :=
  Kept.ofRegex Numbered.visit (numbered_start root symbols) h

theorem breadthFirst_toDfa {e : Exploration root} {alphabet : Alphabet σ}
    (complete : e.Complete alphabet.symbols.toList)
    (numbered : e.Numbered alphabet.symbols.toList) : (e.toDfa alphabet complete).BreadthFirst := by
  intro j pos inside
  have found : j < e.found.size := by
    rwa [Dfa.stateCount, toDfa, Array.size_map] at inside
  exact numbered j pos found

end Exploration

end Residual
