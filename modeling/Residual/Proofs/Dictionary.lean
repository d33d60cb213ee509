import Mathlib.Data.Finset.Card
import Mathlib.Order.Interval.Set.Nat
import Residual.Proofs.Boolean
import Residual.Proofs.Factors
import Residual.Proofs.Flattening
import Residual.Proofs.Matcher.Compile

/-!
# Automata of dictionaries

A dictionary is the union of finitely many words. What is left of it after some symbols is the
dictionary of what is left of the words that start with them:

* **words** — `Regex.Spelling`: a word is spelled symbol by symbol, be it one block or a sequence of
  single symbols, and `Spelling.residual` says what is left of it;
* **dictionaries** — `residual_dictionary`: the derivatives of a dictionary are dictionaries of
  suffixes, so that there is at most one for each prefix of a word, and `fail`
  (`ncard_residuals_dictionary`);
* **single words** — `Spelling.residuals_eq`: the derivatives of a word are its suffixes and `fail`,
  which are all different (`Spelling.ncard_residuals`).

Hence the automaton of a dictionary is no larger than the trie of its words with a state for failure
(`dictionary_states`).
-/

namespace Residual

variable {σ : Type} [Symbol σ]

theorem isPrefixOf?_eq_none {u w : List σ} : u.isPrefixOf? w = none ↔ ¬ u <+: w := by
  rw [← Option.not_isSome_iff_eq_none, List.isSome_isPrefixOf?_eq_isPrefixOf,
    List.isPrefixOf_iff_prefix]

namespace Regex

/-! ## Spelled words -/

/-- The regexes of words are spelled symbol by symbol: their derivatives are the regexes of what
follows the first symbol. -/
structure Spelling (spell : List σ → Regex σ) : Prop where
  derivative_nil : ∀ d, (spell []).derivative d = fail
  derivative_cons : ∀ c w d, (spell (c :: w)).derivative d = if c = d then spell w else fail
  mem_language : ∀ w v, v ∈ (spell w).language ↔ v = w

theorem derivative_fail (d : σ) : (fail : Regex σ).derivative d = fail :=
  tree_inj.mp (Tree.derivative_fail d)

theorem derivative_epsilon (d : σ) : (epsilon : Regex σ).derivative d = fail := by
  rw [← tree_inj]
  show (Tree.closure .fail).derivative d = .fail
  rw [Tree.derivative_closure, Tree.derivative_fail, Tree.fail_andThen]

theorem derivative_word_cons (c : σ) (w : List σ) (d : σ) :
    (word (c :: w)).derivative d = if c = d then word w else fail := by
  rw [← tree_inj]
  show (Tree.block (c :: w)).derivative d = _
  rw [Tree.derivative_block_cons]
  split <;> rfl

/-- A word as one block. -/
theorem spelling_word : Spelling (word : List σ → Regex σ) where
  derivative_nil := derivative_epsilon
  derivative_cons := derivative_word_cons
  mem_language _ _ := mem_language_word

theorem derivative_single (c d : σ) :
    (single c).derivative d = if c = d then epsilon else fail := by
  rw [← tree_inj]
  show (Tree.single c).derivative d = _
  rw [Tree.derivative_single]
  split <;> rfl

/-- The derivative of a sequence that starts with a symbol. -/
theorem derivative_single_andThen (c : σ) (r : Regex σ) (d : σ) :
    ((single c).andThen r).derivative d = if c = d then r else fail := by
  -- a sequence with `fail` or `epsilon` is not written as one
  by_cases stuck : r = fail
  · rw [stuck, andThen_eq_fail.mpr (.inr rfl), derivative_fail, ite_self]
  by_cases empty : r = epsilon
  · rw [empty, andThen_epsilon, derivative_single]
  have head : (Tree.single c : Tree σ) ≠ .fail ∧ Tree.single c ≠ .epsilon := by
    simp [Tree.epsilon]
  have rest : r.tree ≠ .fail ∧ r.tree ≠ .epsilon :=
    ⟨mt (@tree_inj _ _ r fail).mp stuck, mt (@tree_inj _ _ r epsilon).mp empty⟩
  have written : (Tree.single c).andThen r.tree = .sequence (.single c) r.tree := by
    rw [Tree.andThen_of_not_sequence rfl, Tree.pair_of_ne head rest]
  rw [← tree_inj]
  show ((Tree.single c).andThen r.tree).derivative d = _
  rw [written, Tree.derivative_sequence, Tree.nullable_single, if_neg Bool.false_ne_true,
    Tree.derivative_single]
  split
  · exact Tree.epsilon_andThen _
  · exact Tree.fail_andThen _

theorem mem_language_concat_single {w v : List σ} :
    v ∈ (concat (w.map single)).language ↔ v = w := by
  induction w generalizing v with
  | nil =>
      rw [List.map_nil, concat_nil, language_epsilon]
      exact Language.mem_one v
  | cons c w ih =>
      rw [List.map_cons, concat_cons, language_andThen, Language.mem_mul]
      simp only [mem_language_single, ih]
      constructor
      · rintro ⟨_, rfl, _, rfl, rfl⟩
        rfl
      · rintro rfl
        exact ⟨[c], rfl, w, rfl, rfl⟩

/-- A word as a sequence of single symbols. -/
theorem spelling_concat_single : Spelling fun w : List σ => concat (w.map single) where
  derivative_nil := derivative_epsilon
  derivative_cons c w d := by rw [List.map_cons, concat_cons, derivative_single_andThen]
  mem_language _ _ := mem_language_concat_single

/-! ## What is left of a word -/

theorem residual_cons (r : Regex σ) (c : σ) (w : List σ) :
    r.residual (c :: w) = (r.derivative c).residual w :=
  rfl

theorem residual_fail (w : List σ) : (fail : Regex σ).residual w = fail := by
  induction w with
  | nil => rfl
  | cons c w ih => rw [residual_cons, derivative_fail, ih]

namespace Spelling

variable {spell : List σ → Regex σ} (h : Spelling spell)
include h

/-- What is left of a word after a prefix is the rest of the word, and after anything else
nothing. -/
theorem residual (w u : List σ) :
    (spell w).residual u = ((u.isPrefixOf? w).map spell).getD fail := by
  induction u generalizing w with
  | nil => rfl
  | cons d u ih =>
      rw [residual_cons]
      cases w with
      | nil =>
          rw [h.derivative_nil, residual_fail]
          rfl
      | cons c w =>
          rw [h.derivative_cons, List.isPrefixOf?]
          by_cases same : c = d
          · subst same
            rw [if_pos rfl, ih, beq_self_eq_true, if_pos rfl]
          · rw [if_neg same, residual_fail, if_neg (by simpa using Ne.symm same)]
            rfl

theorem residual_append (u v : List σ) : (spell (u ++ v)).residual u = spell v := by
  have rest : u.isPrefixOf? (u ++ v) = some v := List.isPrefixOf?_eq_some_iff_append_eq.mpr rfl
  rw [h.residual, rest]
  rfl

theorem residual_of_not_prefix {w u : List σ} (differs : ¬ u <+: w) :
    (spell w).residual u = fail := by
  rw [h.residual, isPrefixOf?_eq_none.mpr differs]
  rfl

theorem ne_fail (w : List σ) : spell w ≠ fail := by
  intro stuck
  have member : w ∈ (fail : Regex σ).language := stuck ▸ (h.mem_language w w).mpr rfl
  rw [language_fail] at member
  exact member

theorem injective : Function.Injective spell := by
  intro w v same
  have member : w ∈ (spell v).language := same ▸ (h.mem_language w w).mpr rfl
  exact (h.mem_language v w).mp member

/-- The derivatives of a word over an alphabet that has its symbols are its suffixes and `fail`. -/
theorem residuals_eq {w symbols : List σ} (nonempty : w ≠ []) (hw : ∀ c ∈ w, c ∈ symbols) :
    (spell w).residuals symbols =
      insert fail ((fun k => spell (w.drop k)) '' Set.Iio (w.length + 1)) := by
  ext r
  constructor
  · rintro ⟨u, -, rfl⟩
    by_cases starts : u <+: w
    · obtain ⟨v, rfl⟩ := starts
      refine .inr ⟨u.length, ?_, ?_⟩
      · rw [Set.mem_Iio, List.length_append]
        omega
      · show spell ((u ++ v).drop u.length) = _
        rw [List.drop_left, h.residual_append]
    · exact .inl (h.residual_of_not_prefix starts)
  · rintro (rfl | ⟨k, -, rfl⟩)
    · -- nothing is left behind the word and one more of its symbols
      obtain ⟨c, hc⟩ := List.exists_mem_of_ne_nil w nonempty
      refine ⟨w ++ [c], ?_, h.residual_of_not_prefix fun starts => ?_⟩
      · intro d member
        rcases List.mem_append.mp member with member | member
        · exact hw d member
        · exact hw d (List.mem_singleton.mp member ▸ hc)
      · simpa using starts.length_le
    · refine ⟨w.take k, fun c member => hw c (List.mem_of_mem_take member), ?_⟩
      have rest : (spell (w.take k ++ w.drop k)).residual (w.take k) = spell (w.drop k) :=
        h.residual_append _ _
      rwa [List.take_append_drop] at rest

/-- A word has as many suffixes as prefixes, and one more derivative. -/
theorem ncard_residuals {w symbols : List σ} (nonempty : w ≠ []) (hw : ∀ c ∈ w, c ∈ symbols) :
    ((spell w).residuals symbols).ncard = w.length + 2 := by
  have different : Set.InjOn (fun k => spell (w.drop k)) (Set.Iio (w.length + 1)) := by
    intro i hi j hj same
    have lengths := congrArg List.length (h.injective same)
    rw [List.length_drop, List.length_drop] at lengths
    rw [Set.mem_Iio] at hi hj
    omega
  have new : fail ∉ (fun k => spell (w.drop k)) '' Set.Iio (w.length + 1) := by
    rintro ⟨k, -, stuck⟩
    exact h.ne_fail _ stuck
  rw [h.residuals_eq nonempty hw, Set.ncard_insert_of_notMem new ((Set.finite_Iio _).image _),
    different.ncard_image, Set.ncard_Iio_nat]

end Spelling

/-! ## Dictionaries -/

/-- The regex that matches the words of a list. -/
def dictionary (words : List (List σ)) : Regex σ :=
  alternation (words.map word)

theorem mem_language_dictionary {words : List (List σ)} {w : List σ} :
    w ∈ (dictionary words).language ↔ w ∈ words := by
  rw [dictionary, mem_language_alternation]
  simp [mem_language_word]

/-- Members that are not there count as the unit. -/
theorem combine_map_getD {α : Type} (op : Connective) (f : α → Option (Regex σ)) (as : List α) :
    combine op (as.map fun a => (f a).getD (unit op)) = combine op (as.filterMap f) := by
  have each : ∀ a ∈ as, (f a).getD (unit op) = combine op (f a).toList := by
    intro a _
    cases f a with
    | none => exact combine_nil.symm
    | some r => exact (combine_singleton r).symm
  rw [List.map_congr_left each, List.filterMap_eq_flatMap_toList, List.flatMap_def,
    ← combine_map_combine, List.map_map]
  rfl

/-- What is left of a dictionary is the dictionary of what is left of its words. -/
theorem residual_dictionary (words : List (List σ)) (u : List σ) :
    (dictionary words).residual u = dictionary (words.filterMap u.isPrefixOf?) := by
  have left (w : List σ) : (word w).residual u = ((u.isPrefixOf? w).map word).getD (unit .or) :=
    spelling_word.residual w u
  have members : (words.map word).map (fun r => r.residual u) =
      words.map fun w => ((u.isPrefixOf? w).map word).getD (unit .or) := by
    rw [List.map_map]
    exact List.map_congr_left fun w _ => left w
  rw [dictionary, (residual_boolean u).alternation, members, alternation, combine_map_getD,
    dictionary, alternation, List.map_filterMap]

/-! ## Counting derivatives -/

/-- The prefixes of the words of a list, the words themselves and the empty word among them. They
are the nodes of the trie of the words. -/
def prefixes (words : List (List σ)) : Finset (List σ) :=
  (words.flatMap List.inits).toFinset

theorem mem_prefixes {words : List (List σ)} {u : List σ} :
    u ∈ prefixes words ↔ ∃ w ∈ words, u <+: w := by
  simp [prefixes]

/-- Where no word starts with the symbols that were read, nothing is left of a dictionary. -/
theorem residual_dictionary_of_notMem {words : List (List σ)} {u : List σ}
    (missing : u ∉ prefixes words) : (dictionary words).residual u = fail := by
  have none : words.filterMap u.isPrefixOf? = [] := by
    rw [List.filterMap_eq_nil_iff]
    intro w member
    exact isPrefixOf?_eq_none.mpr fun starts => missing (mem_prefixes.mpr ⟨w, member, starts⟩)
  rw [residual_dictionary, none]
  exact combine_nil

/-- There is at most one derivative for each prefix, and `fail`. -/
theorem ncard_residuals_dictionary (words : List (List σ)) (symbols : List σ) :
    ((dictionary words).residuals symbols).ncard ≤ (prefixes words).card + 1 := by
  have covered : (dictionary words).residuals symbols ⊆
      insert fail ((dictionary words).residual '' prefixes words) := by
    rintro r ⟨u, -, rfl⟩
    by_cases member : u ∈ prefixes words
    · exact .inr ⟨u, member, rfl⟩
    · exact .inl (residual_dictionary_of_notMem member)
  calc ((dictionary words).residuals symbols).ncard
    _ ≤ (insert fail ((dictionary words).residual '' prefixes words)).ncard :=
      Set.ncard_le_ncard covered (((prefixes words).finite_toSet.image _).insert _)
    _ ≤ ((dictionary words).residual '' prefixes words).ncard + 1 := Set.ncard_insert_le _ _
    _ ≤ (prefixes words : Set (List σ)).ncard + 1 :=
      Nat.add_le_add_right (Set.ncard_image_le (prefixes words).finite_toSet) 1
    _ = (prefixes words).card + 1 := by rw [Set.ncard_coe_finset]

end Regex

/-! ## Automata -/

namespace Dfa

open Regex

/-- The automaton of a dictionary matches the words of the dictionary and has at most a state for
every node of their trie and one for failure. -/
theorem exists_ofRegex_dictionary (words : List (List σ)) (symbols : List σ) :
    ∃ d, (ofRegex (dictionary words) symbols).result = .ok d ∧
      d.stateCount ≤ (prefixes words).card + 1 ∧
      ∀ w, (∀ c ∈ w, c ∈ symbols) → (d.isMatch w = true ↔ w ∈ words) := by
  obtain ⟨d, compiled⟩ : ∃ d, (ofRegex (dictionary words) symbols).result = .ok d :=
    compile_unlimited {} rfl _ _
  refine ⟨d, compiled, ?_, ?_⟩
  · rw [stateCount_compile compiled]
    exact ncard_residuals_dictionary words symbols
  · intro w hw
    rw [isMatch_compile compiled hw, accepts_iff, mem_language_dictionary]

/-- The automaton of a word has a state for every suffix and one for failure. -/
theorem exists_ofRegex_spelling {spell : List σ → Regex σ} (h : Spelling spell)
    {w symbols : List σ} (nonempty : w ≠ []) (hw : ∀ c ∈ w, c ∈ symbols) :
    ∃ d, (ofRegex (spell w) symbols).result = .ok d ∧ d.stateCount = w.length + 2 := by
  obtain ⟨d, compiled⟩ : ∃ d, (ofRegex (spell w) symbols).result = .ok d :=
    compile_unlimited {} rfl _ _
  exact ⟨d, compiled, by rw [stateCount_compile compiled, h.ncard_residuals nonempty hw]⟩

/-- Dictionaries compile to automata that are no larger than their tries. There is an automaton, it
has at most one state more than the words have prefixes, and it matches a word over the alphabet
exactly when the dictionary has it. For a single word that is not empty, over an alphabet that has
its symbols, there are exactly two states more than symbols, whether the word is one block or a
sequence of single symbols. -/
theorem dictionary_states (words : List (List σ)) (symbols : List σ) :
    (∃ d, (ofRegex (dictionary words) symbols).result = .ok d ∧
      d.stateCount ≤ (prefixes words).card + 1 ∧
      ∀ w, (∀ c ∈ w, c ∈ symbols) → (d.isMatch w = true ↔ w ∈ words)) ∧
    ∀ w, w ≠ [] → (∀ c ∈ w, c ∈ symbols) →
      (∃ d, (ofRegex (word w) symbols).result = .ok d ∧ d.stateCount = w.length + 2) ∧
      ∃ d, (ofRegex (concat (w.map single)) symbols).result = .ok d ∧
        d.stateCount = w.length + 2 := by
  refine ⟨exists_ofRegex_dictionary words symbols, ?_⟩
  intro w nonempty hw
  exact ⟨exists_ofRegex_spelling spelling_word nonempty hw,
    exists_ofRegex_spelling spelling_concat_single nonempty hw⟩

/-- Two words with a common prefix, and one of them alone. -/
theorem dictionary_states_common_prefix :
    (prefixes [[97, 98], [97, (99 : UInt8)]]).card = 4 ∧
    (∃ d, (ofRegex (dictionary [[97, 98], [97, (99 : UInt8)]]) [97, 98, 99]).result = .ok d ∧
      d.stateCount ≤ 5 ∧ d.isMatch [97, 99] = true ∧ d.isMatch [97] = false) ∧
    ∃ d, (ofRegex (concat ([97, 98].map single) : Regex UInt8) [97, 98, 99]).result = .ok d ∧
      d.stateCount = 4 := by
  obtain ⟨⟨d, compiled, states, words⟩, single⟩ :=
    dictionary_states [[97, 98], [97, (99 : UInt8)]] [97, 98, 99]
  have four : (prefixes [[97, 98], [97, (99 : UInt8)]]).card = 4 := by decide
  rw [four] at states
  refine ⟨four, ⟨d, compiled, states, ?_, ?_⟩, ?_⟩
  · exact (words [97, 99] (by simp)).mpr (by simp)
  · exact Bool.eq_false_iff.mpr fun yes => absurd ((words [97] (by simp)).mp yes) (by simp)
  · exact (single [97, 98] (by simp) (by simp)).2

end Dfa

end Residual
