import Residual.Tree.Derivative

/-!
# Derivatives are finite in number

A canonical tree has only finitely many derivatives by words (`exists_derivative_closed`). The
derivative of a sequence is the union of few `parts`, each a derivative of its left tree followed by
the right one, or a part of the right one. A list of trees that is `Closed` under parts stays finite
when unions of its trees are added, and the list with these unions is closed under derivatives. That
carries over from the children of a tree to the tree.
-/

namespace Residual.Tree

variable {σ : Type} [Symbol σ]

/-! ## Parts of derivatives -/

/-- Trees whose union is the derivative of a tree. -/
def parts (c : σ) : Tree σ → List (Tree σ)
  | sequence t u => (t.derivative c).andThen u :: if t.nullable then parts c u else []
  | t => [t.derivative c]

theorem parts_sequence (c : σ) (t u : Tree σ) : parts c (sequence t u) =
    (t.derivative c).andThen u :: if t.nullable then parts c u else [] := rfl

@[simp] theorem parts_any (c : σ) : parts c any = [epsilon] := rfl

@[simp] theorem parts_fail (c : σ) : parts c fail = [fail] := rfl

@[simp] theorem parts_closure (c : σ) (t : Tree σ) :
    parts c (closure t) = [(t.derivative c).andThen (closure t)] := rfl

@[simp] theorem parts_negation (c : σ) (t : Tree σ) :
    parts c (negation t) = [(t.derivative c).complement] := rfl

theorem parts_of_not_sequence {t : Tree σ} (h : t.isSequence = false) (c : σ) :
    parts c t = [t.derivative c] := by
  cases t with
  | sequence t u => cases h
  | _ => rfl

theorem Canonical.of_mem_parts {t u : Tree σ} {c : σ} (ht : t.Canonical) (hu : u ∈ parts c t) :
    u.Canonical := by
  induction ht with
  | @sequence t v left right _ _ _ _ ih =>
    rw [parts_sequence, List.mem_cons] at hu
    rcases hu with rfl | hu
    · exact (left.derivative c).andThen right
    · split at hu
      · exact ih hu
      · simp at hu
  | _ =>
    rw [parts_of_not_sequence rfl, List.mem_singleton] at hu
    rw [hu]
    refine Canonical.derivative ?_ c
    constructor <;> assumption

/-- The derivative of a canonical tree is the union of its parts. -/
theorem Canonical.combine_parts {t : Tree σ} (ht : t.Canonical) (c : σ) :
    combine .or (parts c t) = t.derivative c := by
  induction ht with
  | @sequence t u left right _ _ _ _ ih =>
    have hleft := (left.derivative c).andThen right
    rw [parts_sequence, derivative_sequence]
    split
    · have h := @combine_map_combine _ _ .or [[(t.derivative c).andThen u], parts c u] (by
        simpa using ⟨hleft, fun v hv => right.of_mem_parts hv⟩)
      simpa [combine_singleton hleft, ih] using h.symm
    · exact combine_singleton hleft
  | _ =>
    rw [parts_of_not_sequence rfl]
    refine combine_singleton (Canonical.derivative ?_ c)
    constructor <;> assumption

private theorem Canonical.parts_pair {t u v : Tree σ} {c : σ} (ht : t.Canonical)
    (nested : t.isSequence = false) (hv : v ∈ parts c (t.andThen u)) :
    v = .fail ∨ t.nullable = true ∧ v ∈ parts c u ∨ v = (t.derivative c).andThen u := by
  by_cases tf : t = .fail
  · simp_all
  by_cases te : t = epsilon
  · subst te
    exact .inr (.inl ⟨nullable_closure _, by simpa using hv⟩)
  by_cases uf : u = .fail
  · rw [andThen_of_not_sequence nested, uf, pair_fail] at hv
    simp_all
  by_cases ue : u = epsilon
  · rw [ue, ht.andThen_epsilon, parts_of_not_sequence nested, List.mem_singleton] at hv
    rw [hv, ue, (ht.derivative c).andThen_epsilon]
    exact .inr (.inr rfl)
  · -- outside the special cases the two trees stand as they are
    rw [andThen_of_not_sequence nested, pair_of_ne ⟨tf, te⟩ ⟨uf, ue⟩, parts_sequence] at hv
    rcases List.mem_cons.1 hv with hv | hv
    · exact .inr (.inr hv)
    · split at hv
      · next h => exact .inr (.inl ⟨h, hv⟩)
      · simp at hv

/-- The parts of two trees in sequence come from the parts of the two. -/
theorem Canonical.parts_andThen {t u v : Tree σ} {c : σ} (ht : t.Canonical)
    (hv : v ∈ parts c (t.andThen u)) :
    v = .fail ∨ v ∈ parts c u ∨ ∃ t' ∈ parts c t, v = t'.andThen u := by
  induction ht with
  | @sequence t t' left _ nested _ _ _ ih =>
    rw [sequence_andThen] at hv
    rcases left.parts_pair nested hv with h | ⟨nullable, h⟩ | h
    · exact .inl h
    · rcases ih h with h | h | ⟨w, hw, h⟩
      · exact .inl h
      · exact .inr (.inl h)
      · exact .inr (.inr ⟨w, by simp [parts_sequence, nullable, hw], h⟩)
    · exact .inr (.inr ⟨(t.derivative c).andThen t', List.mem_cons_self .., by
        rw [h, andThen_assoc]⟩)
  | _ =>
    rcases Canonical.parts_pair (by constructor <;> assumption) rfl hv with h | ⟨_, h⟩ | h
    · exact .inl h
    · exact .inr (.inl h)
    · exact .inr (.inr ⟨_, by rw [parts_of_not_sequence rfl]; simp, h⟩)

/-! ## Sublists -/

/-- All sublists of a list. -/
private def sublists {α : Type} : List α → List (List α)
  | [] => [[]]
  | a :: as => (sublists as).map (a :: ·) ++ sublists as

private theorem sublists_cons {α : Type} (a : α) (as : List α) :
    sublists (a :: as) = (sublists as).map (a :: ·) ++ sublists as := rfl

private theorem filter_mem_sublists {α : Type} (p : α → Bool) (as : List α) :
    as.filter p ∈ sublists as := by
  induction as with
  | nil => exact List.mem_singleton_self []
  | cons a as ih => cases h : p a <;> simp [sublists_cons, h, ih]

private theorem subset_of_mem_sublists {α : Type} {as bs : List α} (h : bs ∈ sublists as) :
    bs ⊆ as := by
  induction as generalizing bs with
  | nil =>
    rw [List.mem_singleton.1 h]
    exact List.Subset.refl []
  | cons a as ih =>
    simp only [sublists_cons, List.mem_append, List.mem_map] at h
    rcases h with ⟨cs, hcs, rfl⟩ | h
    · exact List.cons_subset_cons a (ih hcs)
    · exact List.subset_cons_of_subset a (ih h)

/-- The joins of all sublists of a list of trees. -/
private def joins (op : Connective) (ts : List (Tree σ)) : List (Tree σ) :=
  (sublists ts).map (combine op)

private theorem exists_of_mem_joins {op : Connective} {ts : List (Tree σ)} {u : Tree σ}
    (h : u ∈ joins op ts) : ∃ us, us ⊆ ts ∧ combine op us = u := by
  obtain ⟨us, hus, rfl⟩ := List.mem_map.1 h
  exact ⟨us, subset_of_mem_sublists hus, rfl⟩

private theorem combine_mem_joins {op : Connective} {ts us : List (Tree σ)}
    (hts : ∀ t ∈ ts, t.Canonical) (h : us ⊆ ts) : combine op us ∈ joins op ts := by
  refine List.mem_map.2 ⟨ts.filter (· ∈ us), filter_mem_sublists _ ts, ?_⟩
  refine combine_congr_mem (fun t ht => hts t (List.mem_filter.1 ht).1) fun v => ?_
  simpa using @h v

private theorem subset_joins {op : Connective} {ts : List (Tree σ)} (hts : ∀ t ∈ ts, t.Canonical) :
    ts ⊆ joins op ts := fun t ht => by
  have h := @combine_mem_joins _ _ op ts [t] hts (by simpa using ht)
  rwa [combine_singleton (hts t ht)] at h

/-! ## Closed lists of trees -/

/-- A list of canonical trees with the parts of its trees and the trees whose negations it has. -/
structure Closed (ts : List (Tree σ)) : Prop where
  canonical : ∀ t ∈ ts, t.Canonical
  parts : ∀ t ∈ ts, ∀ c, parts c t ⊆ ts
  negated : ∀ t, negation t ∈ ts → t ∈ ts

/-- A closed list of trees with the derivatives of its trees. -/
structure Saturated (ts : List (Tree σ)) : Prop extends Closed ts where
  derivative : ∀ t ∈ ts, ∀ c, t.derivative c ∈ ts

private theorem derivative_combine_mem_joins {op : Connective} {ts us : List (Tree σ)}
    (h : Saturated ts) (hus : us ⊆ ts) (c : σ) :
    (combine op us).derivative c ∈ joins op ts := by
  rw [derivative_combine fun u hu => h.canonical u (hus hu)]
  refine combine_mem_joins h.canonical fun v hv => ?_
  obtain ⟨u, hu, rfl⟩ := List.mem_map.1 hv
  exact h.derivative u (hus hu) c

private theorem canonical_of_mem_joins {op : Connective} {ts : List (Tree σ)}
    (hts : ∀ t ∈ ts, t.Canonical) : ∀ t ∈ joins op ts, t.Canonical := fun t ht => by
  obtain ⟨us, hus, rfl⟩ := exists_of_mem_joins ht
  exact canonical_combine fun u hu => hts u (hus hu)

/-- A join whose top node is no join and not the unit is one of the trees that it joins. -/
private theorem mem_of_mem_joins {op : Connective} {ts : List (Tree σ)} {t : Tree σ}
    (hts : ∀ t ∈ ts, t.Canonical) (ht : t ∈ joins op ts) (flat : t.isJoin op = false)
    (ne : t ≠ op.unit) : t ∈ ts := by
  obtain ⟨us, hus, rfl⟩ := exists_of_mem_joins ht
  exact hus (combine_mem (fun u hu => hts u (hus hu)) flat ne)

/-- With all unions of its trees a closed list is saturated. -/
private theorem Closed.saturated_joins {ts : List (Tree σ)} (h : Closed ts) :
    Saturated (joins .or ts) := by
  have sub : ts ⊆ joins .or ts := subset_joins h.canonical
  have derivative : ∀ t ∈ joins .or ts, ∀ c, t.derivative c ∈ joins .or ts := by
    -- the derivative of a union is the union of all parts of its trees
    intro t ht c
    obtain ⟨us, hus, rfl⟩ := exists_of_mem_joins ht
    have canonical : ∀ u ∈ us, u.Canonical := fun u hu => h.canonical u (hus hu)
    rw [derivative_combine canonical,
      List.map_congr_left fun u hu => ((canonical u hu).combine_parts c).symm,
      ← Function.comp_def, ← List.map_map, combine_map_combine]
    · refine combine_mem_joins h.canonical fun v hv => ?_
      obtain ⟨_, hvs, hv⟩ := List.mem_flatten.1 hv
      obtain ⟨u, hu, rfl⟩ := List.mem_map.1 hvs
      exact h.parts u (hus hu) c hv
    · simpa using fun u hu v hv => (canonical u hu).of_mem_parts hv
  refine ⟨⟨canonical_of_mem_joins h.canonical, fun t ht c => ?_, fun t ht => ?_⟩, derivative⟩
  · cases nested : t.isSequence with
    | false =>
      rw [parts_of_not_sequence nested]
      simpa using derivative t ht c
    | true =>
      -- a sequence among the unions is one of the trees, which have their parts already
      have mem : t ∈ ts := by
        cases t with
        | sequence => exact mem_of_mem_joins h.canonical ht rfl (by simp [Connective.unit])
        | _ => simp [isSequence] at nested
      exact fun v hv => sub (h.parts t mem c hv)
  · exact sub (h.negated t (mem_of_mem_joins h.canonical ht rfl (by simp [Connective.unit])))

/-- With all intersections of its trees, and with `fail`, a saturated list is closed. -/
private theorem Saturated.closed_joins {ts : List (Tree σ)} (h : Saturated ts) :
    Closed (fail :: (ts ++ joins .and ts)) := by
  refine ⟨fun t ht => ?_, fun t ht c => ?_, fun t ht => ?_⟩
  · simp only [List.mem_cons, List.mem_append] at ht
    rcases ht with rfl | ht | ht
    · exact .fail
    · exact h.canonical t ht
    · exact canonical_of_mem_joins h.canonical t ht
  · simp only [List.mem_cons, List.mem_append] at ht
    have sub : ts ⊆ fail :: (ts ++ joins .and ts) := fun u hu => by simp [hu]
    rcases ht with rfl | ht | ht
    · simp
    · exact fun v hv => sub (h.parts t ht c hv)
    · -- the one part of an intersection is its derivative, unless it is a sequence of the list
      cases nested : t.isSequence with
      | false =>
        rw [parts_of_not_sequence nested]
        obtain ⟨us, hus, rfl⟩ := exists_of_mem_joins ht
        simp [derivative_combine_mem_joins h hus c]
      | true =>
        have mem : t ∈ ts := by
          cases t with
          | sequence =>
            exact mem_of_mem_joins h.canonical ht rfl (by simp [Connective.unit, success])
          | _ => simp [isSequence] at nested
        exact fun v hv => sub (h.parts t mem c hv)
  · simp only [List.mem_cons, List.mem_append, reduceCtorEq, false_or] at ht ⊢
    rcases ht with ht | ht
    · exact .inr (.inl (h.negated t ht))
    · -- the intersection of no trees is the negation of `fail`
      by_cases unit : negation t = success
      · exact .inl (by simpa [success] using unit)
      · exact .inr (.inl (h.negated t (mem_of_mem_joins h.canonical ht rfl unit)))

private theorem Saturated.append {ts us : List (Tree σ)} (hts : Saturated ts)
    (hus : Saturated us) : Saturated (ts ++ us) := by
  refine ⟨⟨fun t ht => ?_, fun t ht c => ?_, fun t ht => ?_⟩, fun t ht c => ?_⟩ <;>
    rw [List.mem_append] at ht
  · exact ht.elim (hts.canonical t) (hus.canonical t)
  · exact ht.elim (fun ht v hv => List.mem_append_left _ (hts.parts t ht c hv))
      fun ht v hv => List.mem_append_right _ (hus.parts t ht c hv)
  · exact List.mem_append.2 (ht.imp (hts.negated t) (hus.negated t))
  · exact List.mem_append.2 (ht.imp (hts.derivative t · c) (hus.derivative t · c))

/-! ## Tree by tree -/

/-- The tree belongs to a finite saturated list. -/
def Finitary (t : Tree σ) : Prop :=
  ∃ ts, Saturated ts ∧ t ∈ ts

private theorem Closed.finitary {ts : List (Tree σ)} (h : Closed ts) {t : Tree σ} (ht : t ∈ ts) :
    Finitary t :=
  ⟨_, h.saturated_joins, subset_joins h.canonical ht⟩

private theorem closed_fail : Closed [(fail : Tree σ)] := by
  constructor <;> simp [Canonical.fail]

/-- One more tree, with its parts, whose top node is no negation. -/
private theorem Closed.cons {ts : List (Tree σ)} (h : Closed ts) {t : Tree σ} (ht : t.Canonical)
    (hparts : ∀ c, Tree.parts c t ⊆ ts) (hnot : t.isNegation = false) : Closed (t :: ts) := by
  refine ⟨?_, ?_, fun u hu => ?_⟩
  · simpa using ⟨ht, h.canonical⟩
  · simp only [List.mem_cons, forall_eq_or_imp]
    exact ⟨fun c v hv => List.mem_cons_of_mem _ (hparts c hv),
      fun u hu c v hv => List.mem_cons_of_mem _ (h.parts u hu c hv)⟩
  · rcases List.mem_cons.1 hu with rfl | hu
    · simp [isNegation] at hnot
    · exact List.mem_cons_of_mem _ (h.negated u hu)

private theorem closed_epsilon : Closed [(epsilon : Tree σ), fail] :=
  closed_fail.cons canonical_epsilon (by simp [epsilon]) rfl

private theorem finitary_single (d : σ) : Finitary (single d) := by
  refine Closed.finitary (closed_epsilon.cons (.single d) (fun c => ?_) rfl)
    (List.mem_cons_self ..)
  rw [parts_of_not_sequence rfl, derivative_single]
  split <;> simp

private theorem finitary_any : Finitary (any : Tree σ) :=
  Closed.finitary (closed_epsilon.cons .any (fun c => by simp) rfl) (List.mem_cons_self ..)

private theorem exists_closed_word (cs : List σ) :
    ∃ ts : List (Tree σ), Closed ts ∧ word cs ∈ ts ∧ fail ∈ ts := by
  induction cs with
  | nil => exact ⟨_, closed_epsilon, by simp [word], by simp⟩
  | cons d ds ih =>
    obtain ⟨ts, closed, hword, hfail⟩ := ih
    refine ⟨_, closed.cons (.block (List.cons_ne_nil d ds)) (fun c => ?_) rfl,
      List.mem_cons_self .., List.mem_cons_of_mem _ hfail⟩
    rw [parts_of_not_sequence rfl, derivative_block_cons]
    split <;> simpa

/-- Trees in front of one tree, together with trees that have the parts of that tree. -/
private theorem closed_andThen {ts us : List (Tree σ)} {q : Tree σ} (hts : Closed ts)
    (hq : q ∈ us) (canonical : ∀ u ∈ us, u.Canonical)
    (hparts : ∀ u ∈ us, ∀ c, parts c u ⊆ fail :: (ts.map (·.andThen q) ++ us))
    (negated : ∀ u, negation u ∈ us → u ∈ us) :
    Closed (fail :: (ts.map (·.andThen q) ++ us)) := by
  refine ⟨fun v hv => ?_, fun v hv c => ?_, fun v hv => ?_⟩ <;>
    simp only [List.mem_cons, List.mem_append, List.mem_map] at hv
  · rcases hv with rfl | ⟨t, ht, rfl⟩ | hv
    · exact .fail
    · exact (hts.canonical t ht).andThen (canonical q hq)
    · exact canonical v hv
  · rcases hv with rfl | ⟨t, ht, rfl⟩ | hv
    · simp
    · intro w hw
      rcases (hts.canonical t ht).parts_andThen hw with rfl | hw | ⟨t', ht', rfl⟩
      · exact List.mem_cons_self ..
      · exact hparts q hq c hw
      · have := hts.parts t ht c ht'
        simp only [List.mem_cons, List.mem_append, List.mem_map]
        exact .inr (.inl ⟨t', this, rfl⟩)
    · exact hparts v hv c
  · simp only [List.mem_cons, List.mem_append, List.mem_map]
    rcases hv with hv | ⟨t, ht, hv⟩ | hv
    · simp at hv
    · -- a sequence is a negation only when one of its trees is `epsilon`
      rcases (hts.canonical t ht).andThen_eq_negation hv with ⟨_, rfl⟩ | ⟨rfl, rfl⟩
      · exact .inr (.inr (negated v hq))
      · have := hts.negated v ht
        exact .inr (.inl ⟨v, this, (hts.canonical v this).andThen_epsilon⟩)
    · exact .inr (.inr (negated v hv))

private theorem Finitary.closure {t : Tree σ} (h : Finitary t) (ht : (closure t).Canonical) :
    Finitary (closure t) := by
  obtain ⟨ts, saturated, mem⟩ := h
  have closed : Closed (fail :: (ts.map (·.andThen (Tree.closure t)) ++ [Tree.closure t])) := by
    refine closed_andThen saturated.toClosed (List.mem_singleton_self _) ?_ ?_ ?_
    · simpa using ht
    · simpa using fun c => .inr (.inl ⟨_, saturated.derivative t mem c, rfl⟩)
    · simp
  exact closed.finitary (by simp)

private theorem Finitary.sequence {t u : Tree σ} (h : Finitary t) (h' : Finitary u)
    (htu : (sequence t u).Canonical) : Finitary (sequence t u) := by
  obtain ⟨ts, saturated, mem⟩ := h
  obtain ⟨us, saturated', mem'⟩ := h'
  have closed : Closed (fail :: (ts.map (·.andThen u) ++ us)) := by
    refine closed_andThen saturated.toClosed mem' saturated'.canonical ?_ saturated'.negated
    exact fun v hv c w hw => by simp [saturated'.parts v hv c hw]
  rw [sequence_eq_andThen htu]
  exact closed.finitary (by simpa using .inr (.inl ⟨t, mem, rfl⟩))

private theorem Finitary.negation {t : Tree σ} (h : Finitary t) (ht : (negation t).Canonical) :
    Finitary (negation t) := by
  obtain ⟨ts, saturated, mem⟩ := h
  -- the complement of a negation is in the list already, as the tree that is negated
  have cases {u : Tree σ} (hu : u ∈ ts ++ ts.map complement) :
      u ∈ ts ∨ ∃ v ∈ ts, u = Tree.negation v := by
    rcases List.mem_append.1 hu with hu | hu
    · exact .inl hu
    · obtain ⟨v, hv, rfl⟩ := List.mem_map.1 hu
      unfold complement
      split
      · exact .inl (saturated.negated _ hv)
      · exact .inr ⟨v, hv, rfl⟩
  have closed : Closed (ts ++ ts.map complement) := by
    refine ⟨fun u hu => ?_, fun u hu c => ?_, fun u hu => ?_⟩
    · rcases List.mem_append.1 hu with hu | hu
      · exact saturated.canonical u hu
      · obtain ⟨v, hv, rfl⟩ := List.mem_map.1 hu
        exact (saturated.canonical v hv).complement
    · rcases cases hu with hu | ⟨v, hv, rfl⟩
      · exact fun w hw => List.mem_append_left _ (saturated.parts u hu c hw)
      · simpa using .inr ⟨_, saturated.derivative v hv c, rfl⟩
    · rcases cases hu with hu | ⟨v, hv, eq⟩
      · exact List.mem_append_left _ (saturated.negated u hu)
      · exact List.mem_append_left _ ((negation.inj eq) ▸ hv)
  refine closed.finitary (List.mem_append_right _ (List.mem_map.2 ⟨t, mem, ?_⟩))
  cases ht with
  | negation _ single => cases t <;> simp_all [complement, isNegation]

private theorem exists_saturated {ts : List (Tree σ)} (h : ∀ t ∈ ts, Finitary t) :
    ∃ us, Saturated us ∧ ts ⊆ us := by
  induction ts with
  | nil => exact ⟨[], ⟨⟨by simp, by simp, by simp⟩, by simp⟩, by simp⟩
  | cons t ts ih =>
    obtain ⟨us, saturated, sub⟩ := ih fun u hu => h u (List.mem_cons_of_mem _ hu)
    obtain ⟨vs, saturated', mem⟩ := h t (List.mem_cons_self ..)
    refine ⟨vs ++ us, saturated'.append saturated, List.cons_subset.2 ⟨?_, ?_⟩⟩
    · exact List.mem_append_left _ mem
    · exact fun u hu => List.mem_append_right _ (sub hu)

private theorem finitary_join {op : Connective} {ts : List (Tree σ)} (h : ∀ t ∈ ts, Finitary t)
    (hts : (join op ts).Canonical) : Finitary (join op ts) := by
  obtain ⟨us, saturated, sub⟩ := exists_saturated h
  rw [← combine_members hts]
  have mem : combine op ts ∈ joins op us := combine_mem_joins saturated.canonical sub
  cases op with
  | or => exact ⟨_, saturated.toClosed.saturated_joins, mem⟩
  | and => exact saturated.closed_joins.finitary (by simp [mem])

theorem Canonical.finitary {t : Tree σ} (ht : t.Canonical) : Finitary t := by
  induction ht with
  | single c => exact finitary_single c
  | @block cs nonempty =>
    obtain ⟨ts, closed, mem, _⟩ := exists_closed_word cs
    cases cs with
    | nil => exact absurd rfl nonempty
    | cons => exact closed.finitary mem
  | any => exact finitary_any
  | fail => exact closed_fail.finitary (List.mem_singleton_self _)
  | closure canonical single ih => exact ih.closure (.closure canonical single)
  | negation canonical single ih => exact ih.negation (.negation canonical single)
  | sequence left right nested left_ne right_ne ih ih' =>
    exact ih.sequence ih' (.sequence left right nested left_ne right_ne)
  | join canonical joins increasing several ih =>
    exact finitary_join ih (.join canonical joins increasing several)

/-- Every canonical tree belongs to a finite list of canonical trees that has all derivatives of its
trees. -/
theorem Canonical.exists_derivative_closed {t : Tree σ} (ht : t.Canonical) :
    ∃ ts : List (Tree σ), t ∈ ts ∧ ∀ u ∈ ts, u.Canonical ∧ ∀ c, u.derivative c ∈ ts := by
  obtain ⟨ts, saturated, mem⟩ := ht.finitary
  exact ⟨ts, mem, fun u hu => ⟨saturated.canonical u hu, saturated.derivative u hu⟩⟩

end Residual.Tree
