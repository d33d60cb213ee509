import Residual.Regex.Comparison

/-!
# Comparisons are lawful

Comparing regexes by digest first is a matter of speed alone. Whatever is known of them beforehand,
and also where digests collide:

* **one order** — `Tree.compareBy_eq` and `Tree.compareTop_eq`: every comparison reports the same
  linear order of trees, `Tree.order` for whole trees and `Tree.topOrder` for top nodes;
* **the laws** — `Regex.comparison_lawful`: hence equality of regexes is equality of their trees,
  and their order is total, agrees with equality, and is never in doubt.
-/

namespace Residual

/-! ## Parts of a comparison -/

namespace Report

variable {α β : Type} {report : Report α}

/-- Lists are reported as they are ordered if their items are. -/
theorem lists_of {items : β → β → α} {order : β → β → Ordering} {xs : List β}
    (h : ∀ x ∈ xs, ∀ y, items x y = report.of (order x y)) (ys : List β) :
    report.lists items xs ys = report.of (List.compareLex order xs ys) := by
  induction xs generalizing ys with
  | nil =>
      cases ys with
      | nil => rw [lists, List.compareLex_nil_nil]
      | cons y ys => rw [lists, List.compareLex_nil_cons]
  | cons x xs ih =>
      cases ys with
      | nil => rw [lists, List.compareLex_cons_nil]
      | cons y ys =>
          have rest := ih (fun z hz => h z (List.mem_cons_of_mem _ hz)) ys
          rw [lists, List.compareLex_cons_cons, h x (List.mem_cons_self ..), rest,
            report.andThen_of]

theorem symbols_of {σ : Type} [Symbol σ] (c d : σ) :
    report.symbols c d = report.of (Tree.symbolOrder c d) :=
  report.numbers_eq _ _

end Report

namespace Tree

variable {σ : Type} [Symbol σ] {α : Type} {report : Report α} {known : Shortcut σ}

theorem compareMembers_eq_lists (ts us : List (Tree σ)) :
    compareMembers report known ts us = report.lists (compareBy report known) ts us := by
  induction ts generalizing us with
  | nil => cases us <;> rw [compareMembers, Report.lists]
  | cons t ts ih =>
      cases us with
      | nil => rw [compareMembers, Report.lists]
      | cons u us => rw [compareMembers, Report.lists, ih, compareBy]

/-- Of nodes of different kinds only the kinds are compared. -/
theorem compareTop_of_rank_ne {t u : Tree σ} (h : t.rank ≠ u.rank) :
    compareTop report known t u = report.numbers t.rank u.rank := by
  cases t <;> cases u <;> simp_all [compareTop, rank]
  rename_i op _ op' _
  cases op <;> cases op' <;> simp_all

theorem compare_digest_toNat (t u : Tree σ) :
    compare t.digest.toNat u.digest.toNat = compare t.digest u.digest := by
  show compareOfLessAndEq _ _ = compareOfLessAndEq _ _
  simp only [compareOfLessAndEq, UInt64.lt_iff_toNat_lt, UInt64.toNat_inj]

/-! ## Whole comparisons -/

/-- Trees are reported as they are ordered if their top nodes are. -/
theorem compareBy_of_top {t u : Tree σ}
    (h : compareTop report known t u = report.of (topOrder t u)) :
    compareBy report known t u = report.of (order t u) := by
  rw [compareBy, compareDigests, h]
  split
  · next taken => rw [known.eq_of_taken t u taken, order_self]
  · rw [report.numbers_eq, report.andThen_of, compare_digest_toNat, ← order_eq_then]

/-- Only trees of one kind need to be looked into. -/
theorem compareTop_of_kind {t : Tree σ}
    (h : ∀ u, SameKind t u → compareTop report known t u = report.of (topOrder t u)) (u : Tree σ) :
    compareTop report known t u = report.of (topOrder t u) := by
  by_cases kinds : t.rank = u.rank
  · exact h u (.of_rank kinds)
  · rw [compareTop_of_rank_ne kinds, topOrder_of_rank_ne kinds, report.numbers_eq]

/-- The structure of top nodes is reported as `topOrder` has it. -/
theorem compareTop_eq (t u : Tree σ) :
    compareTop report known t u = report.of (topOrder t u) := by
  induction t using ind generalizing u with
  | single c =>
      apply compareTop_of_kind
      rintro _ ⟨⟩
      rw [compareTop, topOrder, Report.symbols_of]
  | block cs =>
      apply compareTop_of_kind
      rintro _ ⟨⟩
      rw [compareTop, topOrder, Report.lists_of fun c _ d => Report.symbols_of c d]
  | any =>
      apply compareTop_of_kind
      rintro _ ⟨⟩
      simp [compareTop, topOrder, report.numbers_eq]
  | fail =>
      apply compareTop_of_kind
      rintro _ ⟨⟩
      simp [compareTop, topOrder, report.numbers_eq]
  | closure t ih =>
      apply compareTop_of_kind
      rintro _ ⟨⟩
      rw [compareTop, ← compareBy, compareBy_of_top (ih _), topOrder_closure]
  | negation t ih =>
      apply compareTop_of_kind
      rintro _ ⟨⟩
      rw [compareTop, ← compareBy, compareBy_of_top (ih _), topOrder_negation]
  | sequence t t' ih ih' =>
      apply compareTop_of_kind
      rintro _ ⟨⟩
      rw [compareTop, ← compareBy, ← compareBy, compareBy_of_top (ih _), compareBy_of_top (ih' _),
        report.andThen_of, topOrder_sequence]
  | join op ts ih =>
      apply compareTop_of_kind
      rintro _ ⟨⟩
      rw [compareTop, if_pos rfl, compareMembers_eq_lists, topOrder_join,
        Report.lists_of fun t ht u => compareBy_of_top (ih t ht u)]

/-- Trees are reported as `order` has them. -/
theorem compareBy_eq (t u : Tree σ) : compareBy report known t u = report.of (order t u) :=
  compareBy_of_top (compareTop_eq t u)

end Tree

/-! ## The laws -/

/-- The laws of an equality, an order and a partial order of the same things, which have digests:
the equality is that of the things, the order is total and agrees with it, the partial order leaves
nothing open, and equal things have equal digests. -/
structure Lawful {α : Type} (digest : α → UInt64) (same : α → α → Bool)
    (order : α → α → Ordering) (partialOrder : α → α → Option Ordering) : Prop where
  same_iff : ∀ a b, same a b = true ↔ a = b
  eq_iff : ∀ a b, order a b = .eq ↔ same a b = true
  swap : ∀ a b, order b a = (order a b).swap
  lt_trans : ∀ a b c, order a b = .lt → order b c = .lt → order a c = .lt
  partial_eq : ∀ a b, partialOrder a b = some (order a b)
  digest_eq : ∀ a b, same a b = true → digest a = digest b

/-- Comparisons of things by their keys are lawful when they report one linear order of the keys. -/
theorem Lawful.of_reports {α β : Type} {digest : α → UInt64} {same : α → α → Bool}
    {order : α → α → Ordering} {partialOrder : α → α → Option Ordering} {key : α → β}
    {linear : β → β → Ordering} [Std.TransCmp linear] [Std.LawfulEqCmp linear]
    (injective : ∀ a b, key a = key b → a = b)
    (equality : ∀ a b, same a b = Report.equality.of (linear (key a) (key b)))
    (ordering : ∀ a b, order a b = Report.ordering.of (linear (key a) (key b)))
    (partialOrdering : ∀ a b,
      partialOrder a b = Report.partialOrdering.of (linear (key a) (key b))) :
    Lawful digest same order partialOrder := by
  have order_eq (a b : α) : order a b = linear (key a) (key b) := ordering a b
  have same_iff_tie (a b : α) : same a b = true ↔ linear (key a) (key b) = .eq := by
    rw [equality]
    exact beq_iff_eq
  have same_iff (a b : α) : same a b = true ↔ a = b := by
    rw [same_iff_tie, Std.LawfulEqCmp.compare_eq_iff_eq]
    exact ⟨injective a b, congrArg key⟩
  refine ⟨same_iff, ?_, ?_, ?_, ?_, ?_⟩
  · intro a b
    rw [order_eq, same_iff_tie]
  · intro a b
    rw [order_eq, order_eq]
    exact Std.OrientedCmp.eq_swap
  · intro a b c
    rw [order_eq, order_eq, order_eq]
    exact Std.TransCmp.lt_trans
  · intro a b
    rw [order_eq]
    exact partialOrdering a b
  · intro a b same
    rw [(same_iff a b).mp same]

namespace Regex

variable {σ : Type} [Symbol σ]

/-- Equality and order of regexes are lawful, of whole regexes as of their top nodes, whatever is
known of them beforehand. They are the equality and the order that operations on regexes use. -/
theorem comparison_lawful (known : Tree.Shortcut σ) :
    Lawful digest (compareBy .equality known) (compareBy .ordering known)
        (compareBy .partialOrdering known) ∧
      Lawful digest (compareTop .equality known) (compareTop .ordering known)
        (compareTop .partialOrdering known) ∧
      ∀ r s : Regex σ, compareBy .equality known r s = (r == s) ∧
        compareBy .ordering known r s = r.order s ∧
        compareTop .ordering known r s = r.tree.topOrder s.tree := by
  have injective (r s : Regex σ) : r.tree = s.tree → r = s := tree_inj.mp
  have whole : Lawful digest (compareBy .equality known) (compareBy .ordering known)
      (compareBy .partialOrdering known) :=
    .of_reports injective (fun _ _ => Tree.compareBy_eq _ _) (fun _ _ => Tree.compareBy_eq _ _)
      fun _ _ => Tree.compareBy_eq _ _
  refine ⟨whole, ?_, ?_⟩
  · exact .of_reports injective (fun _ _ => Tree.compareTop_eq _ _)
      (fun _ _ => Tree.compareTop_eq _ _) fun _ _ => Tree.compareTop_eq _ _
  · intro r s
    refine ⟨?_, Tree.compareBy_eq _ _, Tree.compareTop_eq _ _⟩
    rw [Bool.eq_iff_iff, whole.same_iff, beq_iff_eq]

/-- Two different words with one digest, which structure tells apart. -/
theorem comparison_lawful_collision :
    let r : Regex UInt8 :=
      word [113, 117, 0, 1, 4, 5, 1, 1, 2, 2, 5, 2, 4, 1, 15, 6, 0, 6, 1, 1, 2, 30, 0, 0]
    let s : Regex UInt8 :=
      word [109, 113, 2, 12, 13, 0, 6, 31, 0, 5, 124, 2, 63, 62, 0, 28, 0, 3, 1, 5, 3, 126, 2, 1]
    r.digest = s.digest ∧ compareBy .ordering .never r s = .gt ∧
      compareBy .ordering .never s r = .lt ∧ compareBy .equality .never r s = false := by
  intro r s
  obtain ⟨laws, -, runs⟩ := comparison_lawful (Tree.Shortcut.never : Tree.Shortcut UInt8)
  have tie : r.tree.digest = s.tree.digest := by
    show (Tree.block _).digest = (Tree.block _).digest
    rw [Tree.digest_block, Tree.digest_block]
    decide +kernel
  have top : r.tree.topOrder s.tree = .gt := by decide
  have greater : compareBy .ordering .never r s = .gt := by
    have digests : compare r.tree.digest s.tree.digest = .eq := by
      rw [tie]
      exact Std.ReflCmp.compare_self
    rw [(runs r s).2.1, order, Tree.order_eq_then, digests, top]
    rfl
  refine ⟨tie, greater, ?_, ?_⟩
  · rw [laws.swap r s, greater]
    rfl
  · rw [Bool.eq_false_iff]
    intro same
    rw [(laws.eq_iff r s).mpr same] at greater
    cases greater

end Regex

end Residual
