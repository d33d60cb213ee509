import Residual.Proofs.Matcher.Limit
import Residual.Proofs.NormalForm

/-!
# Symbols that a regex does not mention

A regex mentions the symbols of its single symbols and its words (`Regex.mentioned`). All others are
the same to it:

* **derivatives** — `Tree.derivative_congr`: they lead to one derivative, and
  `Tree.mentioned_derivative`: a derivative mentions nothing new;
* **words** — `Regex.residual_congr`: so they may be exchanged anywhere in a word;
* **automata** — `Regex.Represented.residuals_eq`: all alphabets with the symbols that are mentioned
  and with some that are not lead to the same derivatives, and so to as many states.
-/

namespace Residual

variable {σ : Type} [Symbol σ]

namespace Tree

/-! ## Symbols of trees -/

/-- The symbols that a node itself holds. -/
def held : Tree σ → List σ
  | single c => [c]
  | block cs => cs
  | _ => []

attribute [local simp] held

/-- The symbols that the nodes of a tree hold. -/
def mentioned (t : Tree σ) : Set σ :=
  {c | ∃ n, Node n t ∧ c ∈ n.held}

theorem not_mem_mentioned {t : Tree σ} {c : σ} :
    c ∉ t.mentioned ↔ ∀ n, Node n t → c ∉ n.held := by
  simp [mentioned]

instance (t : Tree σ) (c : σ) : Decidable (c ∈ t.mentioned) :=
  decidable_of_iff (¬ ∀ n, Node n t → c ∉ n.held) (by rw [← not_mem_mentioned, not_not])

/-- A tree without children mentions what its node holds. -/
theorem mem_mentioned_of_leaf {t : Tree σ} (leaf : ∀ n, Node n t → n = t) {c : σ} :
    c ∈ t.mentioned ↔ c ∈ t.held := by
  constructor
  · rintro ⟨n, node, holds⟩
    rwa [leaf n node] at holds
  · intro holds
    exact ⟨t, .root, holds⟩

@[simp] theorem mem_mentioned_single {c d : σ} : c ∈ (single d).mentioned ↔ c = d := by
  rw [mem_mentioned_of_leaf (by rintro n ⟨⟩; rfl), held, List.mem_singleton]

@[simp] theorem mem_mentioned_block {c : σ} {cs : List σ} : c ∈ (block cs).mentioned ↔ c ∈ cs := by
  rw [mem_mentioned_of_leaf (by rintro n ⟨⟩; rfl), held]

@[simp] theorem mentioned_any : (any : Tree σ).mentioned = ∅ := by
  ext c
  rw [mem_mentioned_of_leaf (by rintro n ⟨⟩; rfl)]
  simp

@[simp] theorem mentioned_fail : (fail : Tree σ).mentioned = ∅ := by
  ext c
  rw [mem_mentioned_of_leaf (by rintro n ⟨⟩; rfl)]
  simp

@[simp] theorem mentioned_closure (t : Tree σ) : (closure t).mentioned = t.mentioned := by
  ext c
  rw [← not_iff_not, not_mem_mentioned, forall_node_closure, ← not_mem_mentioned]
  simp

@[simp] theorem mentioned_negation (t : Tree σ) : (negation t).mentioned = t.mentioned := by
  ext c
  rw [← not_iff_not, not_mem_mentioned, forall_node_negation, ← not_mem_mentioned]
  simp

@[simp] theorem mentioned_sequence (t u : Tree σ) :
    (sequence t u).mentioned = t.mentioned ∪ u.mentioned := by
  ext c
  rw [← not_iff_not, not_mem_mentioned, forall_node_sequence, ← not_mem_mentioned,
    ← not_mem_mentioned]
  simp

@[simp] theorem mem_mentioned_join {op : Connective} {ts : List (Tree σ)} {c : σ} :
    c ∈ (join op ts).mentioned ↔ ∃ t ∈ ts, c ∈ t.mentioned := by
  rw [← not_iff_not, not_mem_mentioned, forall_node_join]
  simp [not_mem_mentioned]

/-! ## Operations mention nothing new -/

theorem mentioned_epsilon : (epsilon : Tree σ).mentioned = ∅ := by
  rw [epsilon, mentioned_closure, mentioned_fail]

theorem mentioned_unit (op : Connective) : (op.unit : Tree σ).mentioned = ∅ := by
  cases op with
  | or => exact mentioned_fail
  | and => rw [Connective.unit, success, mentioned_negation, mentioned_fail]

theorem mentioned_zero (op : Connective) : (op.zero : Tree σ).mentioned = ∅ := by
  cases op with
  | or => rw [Connective.zero, success, mentioned_negation, mentioned_fail]
  | and => exact mentioned_fail

theorem mem_mentioned_word {c : σ} {cs : List σ} (h : c ∈ (word cs).mentioned) : c ∈ cs := by
  cases cs with
  | nil =>
      rw [word, mentioned_epsilon] at h
      exact absurd h (Set.notMem_empty c)
  | cons d cs => exact mem_mentioned_block.mp h

theorem mentioned_complement (t : Tree σ) : t.complement.mentioned = t.mentioned := by
  unfold complement
  split
  · rw [mentioned_negation]
  · rw [mentioned_negation]

theorem mentioned_pair (t u : Tree σ) : (pair t u).mentioned ⊆ t.mentioned ∪ u.mentioned := by
  unfold pair
  split_ifs
  · simp
  · exact Set.subset_union_right
  · exact Set.subset_union_left
  · rw [mentioned_sequence]

theorem mentioned_andThen (t u : Tree σ) :
    (t.andThen u).mentioned ⊆ t.mentioned ∪ u.mentioned := by
  induction t using ind generalizing u with
  | sequence t t' ih ih' =>
      rw [sequence_andThen, mentioned_sequence, Set.union_assoc]
      exact (ih _).trans (Set.union_subset_union_right _ (ih' u))
  | _ =>
      rw [andThen_of_not_sequence rfl]
      exact mentioned_pair _ u

/-- What a tree contributes to a connective mentions nothing that the tree does not mention. -/
theorem mentioned_contribution {op : Connective} {t u : Tree σ} (h : u ∈ contribution op t) :
    u.mentioned ⊆ t.mentioned := by
  cases flat : t.isJoin op with
  | false =>
      rw [contribution_of_flat flat] at h
      split at h
      · exact absurd h List.not_mem_nil
      · rw [List.mem_singleton.mp h]
  | true =>
      obtain ⟨members, rfl⟩ : ∃ members, t = join op members := by
        cases t <;> simp_all [isJoin]
      rw [contribution_join] at h
      intro c hc
      exact mem_mentioned_join.mpr ⟨u, h, hc⟩

theorem mem_mentioned_ofMembers {op : Connective} {ts : List (Tree σ)} {c : σ}
    (h : c ∈ (ofMembers op ts).mentioned) : ∃ t ∈ ts, c ∈ t.mentioned := by
  rcases ts with _ | ⟨t, _ | ⟨u, ts⟩⟩
  · rw [ofMembers, mentioned_unit] at h
    exact absurd h (Set.notMem_empty c)
  · exact ⟨t, List.mem_singleton_self t, h⟩
  · exact mem_mentioned_join.mp h

theorem mem_mentioned_combine {op : Connective} {ts : List (Tree σ)} {c : σ}
    (h : c ∈ (combine op ts).mentioned) : ∃ t ∈ ts, c ∈ t.mentioned := by
  unfold combine at h
  split at h
  · rw [mentioned_zero] at h
    exact absurd h (Set.notMem_empty c)
  · obtain ⟨u, hu, hc⟩ := mem_mentioned_ofMembers h
    obtain ⟨t, ht, contributes⟩ := mem_contributions.mp (mem_normalize.mp hu)
    exact ⟨t, ht, mentioned_contribution contributes hc⟩

/-! ## Derivatives -/

theorem mentioned_derivative (t : Tree σ) (c : σ) : (t.derivative c).mentioned ⊆ t.mentioned := by
  induction t using ind with
  | single d =>
      rw [derivative_single]
      split_ifs
      · simp [mentioned_epsilon]
      · simp
  | block cs =>
      cases cs with
      | nil => simp [derivative_block_nil]
      | cons d cs =>
          rw [derivative_block_cons]
          split_ifs
          · intro e he
            exact mem_mentioned_block.mpr (List.mem_cons_of_mem _ (mem_mentioned_word he))
          · simp
  | any => simp [mentioned_epsilon]
  | fail => simp
  | closure t ih =>
      rw [derivative_closure]
      refine (mentioned_andThen _ _).trans ?_
      rw [mentioned_closure]
      exact Set.union_subset ih subset_rfl
  | negation t ih => rwa [derivative_negation, mentioned_complement, mentioned_negation]
  | sequence t u iht ihu =>
      have left : ((t.derivative c).andThen u).mentioned ⊆ t.mentioned ∪ u.mentioned :=
        (mentioned_andThen _ _).trans (Set.union_subset_union_left _ iht)
      rw [derivative_sequence, mentioned_sequence]
      split_ifs
      · intro e he
        obtain ⟨v, hv, he⟩ := mem_mentioned_combine he
        rcases List.mem_cons.mp hv with rfl | hv
        · exact left he
        · rw [List.mem_singleton.mp hv] at he
          exact .inr (ihu he)
      · exact left
  | join op ts ih =>
      intro e he
      rw [derivative_join] at he
      obtain ⟨v, hv, he⟩ := mem_mentioned_combine he
      obtain ⟨t, ht, rfl⟩ := List.mem_map.mp hv
      exact mem_mentioned_join.mpr ⟨t, ht, ih t ht he⟩

/-- Symbols that are not mentioned lead to one derivative. -/
theorem derivative_congr {t : Tree σ} {c d : σ} (hc : c ∉ t.mentioned) (hd : d ∉ t.mentioned) :
    t.derivative c = t.derivative d := by
  induction t using ind with
  | single e =>
      have ec : e ≠ c := fun eq => hc (mem_mentioned_single.mpr eq.symm)
      have ed : e ≠ d := fun eq => hd (mem_mentioned_single.mpr eq.symm)
      rw [derivative_single, derivative_single, if_neg ec, if_neg ed]
  | block cs =>
      cases cs with
      | nil => rw [derivative_block_nil, derivative_block_nil]
      | cons e es =>
          have ec : e ≠ c := fun eq => hc (mem_mentioned_block.mpr (by simp [eq]))
          have ed : e ≠ d := fun eq => hd (mem_mentioned_block.mpr (by simp [eq]))
          rw [derivative_block_cons, derivative_block_cons, if_neg ec, if_neg ed]
  | any => rw [derivative_any, derivative_any]
  | fail => rw [derivative_fail, derivative_fail]
  | closure t ih =>
      rw [mentioned_closure] at hc hd
      rw [derivative_closure, derivative_closure, ih hc hd]
  | negation t ih =>
      rw [mentioned_negation] at hc hd
      rw [derivative_negation, derivative_negation, ih hc hd]
  | sequence t u iht ihu =>
      rw [mentioned_sequence, Set.mem_union, not_or] at hc hd
      rw [derivative_sequence, derivative_sequence, iht hc.1 hd.1, ihu hc.2 hd.2]
  | join op ts ih =>
      rw [derivative_join, derivative_join]
      congr 1
      apply List.map_congr_left
      intro t ht
      exact ih t ht (fun h => hc (mem_mentioned_join.mpr ⟨t, ht, h⟩))
        fun h => hd (mem_mentioned_join.mpr ⟨t, ht, h⟩)

end Tree

namespace Regex

/-! ## Words -/

/-- The symbols that a regex mentions, which are those of its single symbols and its words. -/
def mentioned (r : Regex σ) : Set σ :=
  r.tree.mentioned

instance (r : Regex σ) (c : σ) : Decidable (c ∈ r.mentioned) :=
  inferInstanceAs (Decidable (c ∈ r.tree.mentioned))

/-- The symbols are equal, or the regex mentions neither. -/
def Interchangeable (r : Regex σ) (c d : σ) : Prop :=
  c = d ∨ c ∉ r.mentioned ∧ d ∉ r.mentioned

theorem mentioned_derivative (r : Regex σ) (c : σ) : (r.derivative c).mentioned ⊆ r.mentioned :=
  r.tree.mentioned_derivative c

theorem derivative_congr {r : Regex σ} {c d : σ} (hc : c ∉ r.mentioned) (hd : d ∉ r.mentioned) :
    r.derivative c = r.derivative d :=
  tree_inj.mp (Tree.derivative_congr hc hd)

theorem Interchangeable.mono {r s : Regex σ} {c d : σ} (h : r.Interchangeable c d)
    (subset : s.mentioned ⊆ r.mentioned) : s.Interchangeable c d := by
  rcases h with rfl | ⟨hc, hd⟩
  · exact .inl rfl
  · exact .inr ⟨fun h => hc (subset h), fun h => hd (subset h)⟩

theorem Interchangeable.derivative_eq {r : Regex σ} {c d : σ} (h : r.Interchangeable c d) :
    r.derivative c = r.derivative d := by
  rcases h with rfl | ⟨hc, hd⟩
  · rfl
  · exact derivative_congr hc hd

/-- Words that differ in interchangeable symbols only leave the same to match. -/
theorem residual_congr {r : Regex σ} {v w : List σ} (h : List.Forall₂ r.Interchangeable v w) :
    r.residual v = r.residual w := by
  induction v generalizing r w with
  | nil =>
      cases h
      rfl
  | cons c v ih =>
      cases h with
      | @cons _ d _ w first rest =>
          -- what is left mentions nothing new, so that the rest stays interchangeable
          have rest' : List.Forall₂ (r.derivative c).Interchangeable v w :=
            rest.imp fun _ _ h => h.mono (r.mentioned_derivative c)
          calc r.residual (c :: v)
            _ = (r.derivative c).residual v := rfl
            _ = (r.derivative c).residual w := ih rest'
            _ = (r.derivative d).residual w := by rw [first.derivative_eq]
            _ = r.residual (d :: w) := rfl

theorem accepts_congr {r : Regex σ} {v w : List σ} (h : List.Forall₂ r.Interchangeable v w) :
    r.accepts v = r.accepts w := by
  rw [accepts_eq_nullable_residual, accepts_eq_nullable_residual, residual_congr h]

/-! ## Automata -/

/-- The alphabet has all symbols that the regex mentions and one that it does not mention. -/
structure Represented (r : Regex σ) (symbols : List σ) : Prop where
  mentioned : ∀ c ∈ r.mentioned, c ∈ symbols
  other : ∃ c ∈ symbols, c ∉ r.mentioned

/-- Every symbol has a representative in such an alphabet. -/
theorem Represented.exists_interchangeable {r : Regex σ} {symbols : List σ}
    (h : r.Represented symbols) (c : σ) : ∃ d ∈ symbols, r.Interchangeable c d := by
  by_cases hc : c ∈ r.mentioned
  · exact ⟨c, h.mentioned c hc, .inl rfl⟩
  · obtain ⟨d, hd, outside⟩ := h.other
    exact ⟨d, hd, .inr ⟨hc, outside⟩⟩

/-- Every word has one that is interchangeable with it. -/
theorem Represented.exists_word {r : Regex σ} {symbols : List σ} (h : r.Represented symbols)
    (w : List σ) : ∃ v, (∀ c ∈ v, c ∈ symbols) ∧ List.Forall₂ r.Interchangeable w v := by
  induction w with
  | nil => exact ⟨[], by simp, .nil⟩
  | cons c w ih =>
      obtain ⟨d, hd, first⟩ := h.exists_interchangeable c
      obtain ⟨v, hv, rest⟩ := ih
      exact ⟨d :: v, List.forall_mem_cons.mpr ⟨hd, hv⟩, .cons first rest⟩

/-- An alphabet that represents all symbols leads to all derivatives. -/
theorem Represented.residuals_eq {r : Regex σ} {symbols : List σ} (h : r.Represented symbols) :
    r.residuals symbols = {s | ∃ w, r.residual w = s} := by
  ext s
  constructor
  · rintro ⟨w, -, read⟩
    exact ⟨w, read⟩
  · rintro ⟨w, rfl⟩
    obtain ⟨v, hv, same⟩ := h.exists_word w
    exact ⟨v, hv, (residual_congr same).symm⟩

/-- Compiling over any such alphabet tells the same of the number of states. -/
theorem Represented.map_stateCount_eq {r : Regex σ} {symbols others : List σ}
    (h : r.Represented symbols) (h' : r.Represented others) (config : Config) :
    (Dfa.compile config r symbols).result.map Dfa.stateCount =
      (Dfa.compile config r others).result.map Dfa.stateCount := by
  rw [Dfa.map_stateCount_compile, Dfa.map_stateCount_compile, h.residuals_eq, h'.residuals_eq]

theorem Represented.stateCount_eq {r : Regex σ} {symbols others : List σ}
    (h : r.Represented symbols) (h' : r.Represented others) :
    ∃ d d', (Dfa.ofRegex r symbols).result = .ok d ∧ (Dfa.ofRegex r others).result = .ok d' ∧
      d.stateCount = d'.stateCount := by
  obtain ⟨d, compiled⟩ := Dfa.compile_unlimited {} rfl r symbols
  obtain ⟨d', compiled'⟩ := Dfa.compile_unlimited {} rfl r others
  refine ⟨d, d', compiled, compiled', ?_⟩
  rw [Dfa.stateCount_compile compiled, Dfa.stateCount_compile compiled', h.residuals_eq,
    h'.residuals_eq]

/-- Symbols that a regex does not mention are interchangeable: they lead to one derivative, which
mentions nothing new, they may be exchanged anywhere in a word, and it does not matter which of them
an alphabet has, in which order and how often. -/
theorem unmentioned_interchangeable (r : Regex σ) :
    (∀ c d, c ∉ r.mentioned → d ∉ r.mentioned → r.derivative c = r.derivative d) ∧
      (∀ c, (r.derivative c).mentioned ⊆ r.mentioned) ∧
      (∀ v w, List.Forall₂ r.Interchangeable v w → r.accepts v = r.accepts w) ∧
      ∀ symbols others, r.Represented symbols → r.Represented others →
        (∃ d d', (Dfa.ofRegex r symbols).result = .ok d ∧ (Dfa.ofRegex r others).result = .ok d' ∧
          d.stateCount = d'.stateCount) ∧
        ∀ config, (Dfa.compile config r symbols).result.map Dfa.stateCount =
          (Dfa.compile config r others).result.map Dfa.stateCount :=
  ⟨fun _ _ => derivative_congr, r.mentioned_derivative, fun _ _ => accepts_congr,
    fun _ _ h h' => ⟨h.stateCount_eq h', h.map_stateCount_eq h'⟩⟩

/-- Two alphabets with an unmentioned symbol each, in different orders and one with a repetition. -/
theorem unmentioned_interchangeable_complement :
    let r : Regex UInt8 := (word [97, 98]).complement.andThen (single 97)
    (1 ∉ r.mentioned ∧ 2 ∉ r.mentioned ∧ r.derivative 1 = r.derivative 2) ∧
      (List.Forall₂ r.Interchangeable [1, 97, 1] [2, 97, 3] ∧
        r.accepts [1, 97, 1] = r.accepts [2, 97, 3]) ∧
      r.Represented [97, 98, 1] ∧ r.Represented [2, 98, 97, 98] ∧
      ∃ d d', (Dfa.ofRegex r [97, 98, 1]).result = .ok d ∧
        (Dfa.ofRegex r [2, 98, 97, 98]).result = .ok d' ∧ d.stateCount = d'.stateCount := by
  intro r
  have mentioned (c : UInt8) : c ∈ r.mentioned ↔ c = 97 ∨ c = 98 := by
    show c ∈ ((Tree.block [97, 98]).negation.sequence (Tree.single 97)).mentioned ↔ _
    rw [Tree.mentioned_sequence, Tree.mentioned_negation, Set.mem_union, Tree.mem_mentioned_block,
      Tree.mem_mentioned_single]
    simp only [List.mem_cons, List.not_mem_nil, or_false]
    tauto
  have h1 : 1 ∉ r.mentioned := by simp [mentioned]
  have h2 : 2 ∉ r.mentioned := by simp [mentioned]
  have h3 : 3 ∉ r.mentioned := by simp [mentioned]
  have words : List.Forall₂ r.Interchangeable [1, 97, 1] [2, 97, 3] :=
    .cons (.inr ⟨h1, h2⟩) (.cons (.inl rfl) (.cons (.inr ⟨h1, h3⟩) .nil))
  have left : r.Represented [97, 98, 1] := ⟨by simp [mentioned], 1, by simp, h1⟩
  have right : r.Represented [2, 98, 97, 98] := ⟨by simp [mentioned], 2, by simp, h2⟩
  obtain ⟨derivatives, -, accepted, automata⟩ := unmentioned_interchangeable r
  exact ⟨⟨h1, h2, derivatives 1 2 h1 h2⟩, ⟨words, accepted _ _ words⟩, left, right,
    (automata _ _ left right).1⟩

end Regex

end Residual
