import Residual.Tree.Order

/-!
# The order of trees is linear

`order` and `topOrder` are linear orders on all trees: exactly equal trees compare equal
(`order_eq_eq`), swapping the trees swaps the result (`order_swap`), and comparisons compose
(`Composes`). Digests may collide; the laws hold all the same, since structure decides then.
-/

namespace Residual

/-! ## Comparisons that compose -/

/-- How the comparisons of a first with a second and of the second with a third bear on that of the
first with the third. -/
structure Composes (first second both : Ordering) : Prop where
  le : first.isLE → second.isLE → both.isLE
  eq : first.isLE → second.isLE → (both = .eq ↔ first = .eq ∧ second = .eq)

namespace Composes

/-- Comparisons compose when they do by a first key, and by a second one where the first ties. -/
theorem thenBy {a b c a' b' c' : Ordering} (h : Composes a b c)
    (h' : a = .eq → b = .eq → Composes a' b' c') :
    Composes (a.then a') (b.then b') (c.then c') := by
  obtain ⟨le, eq⟩ := h
  cases a <;> cases b <;> cases c <;> simp_all <;> constructor <;> simp_all

/-- Comparisons by a transitive function compose. -/
theorem ofTransCmp {α : Type} (cmp : α → α → Ordering) [Std.TransCmp cmp] (x y z : α) :
    Composes (cmp x y) (cmp y z) (cmp x z) where
  le := Std.TransCmp.isLE_trans
  eq hxy hyz := by
    refine ⟨fun hxz => ?_, fun h => ?_⟩
    · have hzx : (cmp z x).isLE := by rw [@Std.OrientedCmp.eq_swap _ cmp, hxz]; rfl
      exact ⟨Std.OrientedCmp.isLE_antisymm hxy (Std.TransCmp.isLE_trans hyz hzx),
        Std.OrientedCmp.isLE_antisymm hyz (Std.TransCmp.isLE_trans hzx hxy)⟩
    · exact Std.TransCmp.eq_trans h.1 h.2

end Composes

namespace Tree

variable {σ : Type} [Symbol σ]

/-! ## Symbols and words -/

instance : Std.TransCmp (symbolOrder : σ → σ → Ordering) :=
  inferInstanceAs (Std.TransCmp (compareOn Symbol.code))

instance : Std.LawfulEqCmp (symbolOrder : σ → σ → Ordering) where
  compare_self := Std.ReflCmp.compare_self
  eq_of_compare h := Symbol.code_inj.1 (Std.LawfulEqCmp.eq_of_compare h)

/-! ## Kinds -/

/-- Trees of different kinds are ordered by kind. -/
theorem topOrder_of_rank_ne {t u : Tree σ} (h : t.rank ≠ u.rank) :
    topOrder t u = compare t.rank u.rank := by
  cases t <;> cases u <;> try first | rfl | exact absurd rfl h
  -- two joins are left, whose kinds are those of their connectives
  rename_i op _ op' _
  cases op <;> cases op' <;> first | rfl | exact absurd rfl h

/-- The order of two trees by structure looks at their kinds first. -/
theorem topOrder_eq_then (t u : Tree σ) :
    topOrder t u = (compare t.rank u.rank).then (topOrder t u) := by
  by_cases h : t.rank = u.rank
  · simp [h, Std.ReflCmp.compare_self]
  · rw [topOrder_of_rank_ne h]
    cases compare t.rank u.rank <;> rfl

/-! ## Node by node -/

theorem memberOrder_eq_compareLex (ts us : List (Tree σ)) :
    memberOrder ts us = List.compareLex order ts us := by
  induction ts generalizing us with
  | nil => cases us <;> simp [List.compareLex] <;> rfl
  | cons t ts ih =>
    cases us with
    | nil => rw [List.compareLex_cons_nil]; rfl
    | cons u us =>
      rw [List.compareLex_cons_cons, ← ih us]
      rfl

@[simp] theorem topOrder_single (c d : σ) :
    topOrder (single c) (single d) = symbolOrder c d := rfl

@[simp] theorem topOrder_block (cs ds : List σ) :
    topOrder (block cs) (block ds) = List.compareLex symbolOrder cs ds := rfl

@[simp] theorem topOrder_closure (t u : Tree σ) :
    topOrder (closure t) (closure u) = order t u := rfl

@[simp] theorem topOrder_negation (t u : Tree σ) :
    topOrder (negation t) (negation u) = order t u := rfl

@[simp] theorem topOrder_sequence (t t' u u' : Tree σ) :
    topOrder (sequence t t') (sequence u u') = (order t u).then (order t' u') := rfl

@[simp] theorem topOrder_join (op : Connective) (ts us : List (Tree σ)) :
    topOrder (join op ts) (join op us) = List.compareLex order ts us := by
  show (if op = op then memberOrder ts us else _) = _
  rw [if_pos rfl, memberOrder_eq_compareLex]

theorem order_self (t : Tree σ) : order t t = .eq := by
  simp [order, byDigest, Std.ReflCmp.compare_self]

theorem topOrder_self (t : Tree σ) : topOrder t t = .eq := by
  have members (ts : List (Tree σ)) : List.compareLex order ts ts = .eq := by
    induction ts <;> simp_all [List.compareLex_cons_cons, List.compareLex_nil_nil, order_self]
  cases t <;> first
    | simp [order_self, members]
    | simp [Std.ReflCmp.compare_self]
    | rfl

/-- The order of two trees: by digest, then by structure. -/
theorem order_eq_then (t u : Tree σ) :
    order t u = (compare t.digest u.digest).then (topOrder t u) := by
  unfold order byDigest
  split
  · next h => rw [h, topOrder_self]
  · rfl

/-! ## The laws -/

/-- The laws of a linear order as far as they concern the tree `t`. -/
private structure LinearAt (t : Tree σ) : Prop where
  eq : ∀ u, topOrder t u = .eq → t = u
  swap : ∀ u, topOrder u t = (topOrder t u).swap
  composes : ∀ u v, Composes (topOrder t u) (topOrder u v) (topOrder t v)

/-- Two trees whose top nodes are of one kind. -/
inductive SameKind : Tree σ → Tree σ → Prop
  | single (c d) : SameKind (single c) (single d)
  | block (cs ds) : SameKind (block cs) (block ds)
  | any : SameKind any any
  | fail : SameKind fail fail
  | closure (t u) : SameKind (closure t) (closure u)
  | negation (t u) : SameKind (negation t) (negation u)
  | sequence (t t' u u') : SameKind (sequence t t') (sequence u u')
  | join (op ts us) : SameKind (join op ts) (join op us)

theorem SameKind.of_rank {t u : Tree σ} (h : t.rank = u.rank) : SameKind t u := by
  rcases t with _ | _ | _ | _ | _ | _ | _ | ⟨_ | _, _⟩ <;>
    rcases u with _ | _ | _ | _ | _ | _ | _ | ⟨_ | _, _⟩ <;>
    first
      | constructor
      | simp [rank, Connective.tag] at h

/-- Only trees of one kind need to be considered. -/
private theorem LinearAt.ofKind {t : Tree σ}
    (eq : ∀ u, SameKind t u → topOrder t u = .eq → t = u)
    (swap : ∀ u, SameKind t u → topOrder u t = (topOrder t u).swap)
    (composes : ∀ u v, SameKind t u → SameKind t v →
      Composes (topOrder t u) (topOrder u v) (topOrder t v)) : LinearAt t where
  eq u h := by
    refine eq u (.of_rank ?_) h
    rw [topOrder_eq_then, Ordering.then_eq_eq] at h
    exact Std.LawfulEqCmp.eq_of_compare h.1
  swap u := by
    by_cases h : t.rank = u.rank
    · exact swap u (.of_rank h)
    · rw [topOrder_of_rank_ne h, topOrder_of_rank_ne (Ne.symm h)]
      exact Std.OrientedCmp.eq_swap
  composes u v := by
    -- ranks compose, and where they are equal all three trees are of one kind
    rw [topOrder_eq_then t u, topOrder_eq_then u v, topOrder_eq_then t v]
    refine (Composes.ofTransCmp compare _ _ _).thenBy fun htu huv => ?_
    have htu := Std.LawfulEqCmp.eq_of_compare htu
    have huv := Std.LawfulEqCmp.eq_of_compare huv
    exact composes u v (.of_rank htu) (.of_rank (htu.trans huv))

/-! The laws reach from the structural order to the whole one, and to lists. -/

private theorem LinearAt.order_eq {t u : Tree σ} (ht : LinearAt t) (h : order t u = .eq) :
    t = u := by
  rw [order_eq_then, Ordering.then_eq_eq] at h
  exact ht.eq u h.2

private theorem LinearAt.order_swap {t : Tree σ} (ht : LinearAt t) (u : Tree σ) :
    order u t = (order t u).swap := by
  rw [order_eq_then, order_eq_then, Ordering.swap_then, ht.swap u]
  exact congrArg (Ordering.then · _) Std.OrientedCmp.eq_swap

private theorem LinearAt.order_composes {t : Tree σ} (ht : LinearAt t) (u v : Tree σ) :
    Composes (order t u) (order u v) (order t v) := by
  rw [order_eq_then, order_eq_then, order_eq_then]
  exact (Composes.ofTransCmp compare _ _ _).thenBy fun _ _ => ht.composes u v

private theorem eq_of_compareLex {ts us : List (Tree σ)} (hts : ∀ t ∈ ts, LinearAt t)
    (h : List.compareLex order ts us = .eq) : ts = us := by
  induction ts generalizing us with
  | nil => cases us <;> simp_all [List.compareLex]
  | cons t ts ih =>
    cases us with
    | nil => simp [List.compareLex_cons_nil] at h
    | cons u us =>
      rw [List.compareLex_cons_cons, Ordering.then_eq_eq] at h
      rw [(hts t (by simp)).order_eq h.1, ih (fun t ht => hts t (by simp [ht])) h.2]

private theorem compareLex_swap {ts : List (Tree σ)} (hts : ∀ t ∈ ts, LinearAt t)
    (us : List (Tree σ)) : List.compareLex order us ts = (List.compareLex order ts us).swap := by
  induction ts generalizing us with
  | nil => cases us <;> simp [List.compareLex]
  | cons t ts ih =>
    cases us with
    | nil => simp [List.compareLex_cons_nil, List.compareLex_nil_cons]
    | cons u us =>
      rw [List.compareLex_cons_cons, List.compareLex_cons_cons, Ordering.swap_then,
        (hts t (by simp)).order_swap u, ih (fun t ht => hts t (by simp [ht])) us]

private theorem compareLex_composes {ts : List (Tree σ)} (hts : ∀ t ∈ ts, LinearAt t)
    (us vs : List (Tree σ)) :
    Composes (List.compareLex order ts us) (List.compareLex order us vs)
      (List.compareLex order ts vs) := by
  induction ts generalizing us vs with
  | nil =>
    cases us <;> cases vs <;> constructor <;> simp [List.compareLex]
  | cons t ts ih =>
    cases us with
    | nil => constructor <;> simp [List.compareLex_cons_nil]
    | cons u us =>
      cases vs with
      | nil => constructor <;> simp [List.compareLex_cons_nil]
      | cons v vs =>
        rw [List.compareLex_cons_cons, List.compareLex_cons_cons, List.compareLex_cons_cons]
        exact ((hts t (by simp)).order_composes u v).thenBy fun _ _ =>
          ih (fun t ht => hts t (by simp [ht])) us vs

private theorem linearAt (t : Tree σ) : LinearAt t := by
  induction t using ind with
  | single c =>
    refine .ofKind (fun u h => ?_) (fun u h => ?_) (fun u v h h' => ?_)
    · cases h
      simp
    · cases h
      simpa using Std.OrientedCmp.eq_swap
    · cases h; cases h'
      simpa using Composes.ofTransCmp symbolOrder _ _ _
  | block cs =>
    refine .ofKind (fun u h => ?_) (fun u h => ?_) (fun u v h h' => ?_)
    · cases h
      simp
    · cases h
      simpa using Std.OrientedCmp.eq_swap
    · cases h; cases h'
      simpa using Composes.ofTransCmp (List.compareLex symbolOrder) _ _ _
  | any =>
    refine .ofKind (fun u h => ?_) (fun u h => ?_) (fun u v h h' => ?_)
    · cases h; simp
    · cases h; simp [topOrder_self]
    · cases h; cases h'
      constructor <;> simp [topOrder_self]
  | fail =>
    refine .ofKind (fun u h => ?_) (fun u h => ?_) (fun u v h h' => ?_)
    · cases h; simp
    · cases h; simp [topOrder_self]
    · cases h; cases h'
      constructor <;> simp [topOrder_self]
  | closure t ih =>
    refine .ofKind (fun u h => ?_) (fun u h => ?_) (fun u v h h' => ?_)
    · cases h
      simpa using ih.order_eq
    · cases h
      simp [ih.order_swap]
    · cases h; cases h'
      simpa using ih.order_composes _ _
  | negation t ih =>
    refine .ofKind (fun u h => ?_) (fun u h => ?_) (fun u v h h' => ?_)
    · cases h
      simpa using ih.order_eq
    · cases h
      simp [ih.order_swap]
    · cases h; cases h'
      simpa using ih.order_composes _ _
  | sequence t t' ih ih' =>
    refine .ofKind (fun u h => ?_) (fun u h => ?_) (fun u v h h' => ?_)
    · cases h
      simpa [Ordering.then_eq_eq] using fun h h' => ⟨ih.order_eq h, ih'.order_eq h'⟩
    · cases h
      simp [Ordering.swap_then, ih.order_swap, ih'.order_swap]
    · cases h; cases h'
      simpa using (ih.order_composes _ _).thenBy fun _ _ => ih'.order_composes _ _
  | join op ts ih =>
    refine .ofKind (fun u h => ?_) (fun u h => ?_) (fun u v h h' => ?_)
    · cases h
      simpa using eq_of_compareLex ih
    · cases h
      simpa using compareLex_swap ih _
    · cases h; cases h'
      simpa using compareLex_composes ih _ _

instance : Std.TransCmp (order : Tree σ → Tree σ → Ordering) where
  eq_swap {t u} := (linearAt u).order_swap t
  isLE_trans {t u v} := ((linearAt t).order_composes u v).le

instance : Std.LawfulEqCmp (order : Tree σ → Tree σ → Ordering) where
  compare_self {t} := order_self t
  eq_of_compare {t _} := (linearAt t).order_eq

instance : Std.TransCmp (topOrder : Tree σ → Tree σ → Ordering) where
  eq_swap {t u} := (linearAt u).swap t
  isLE_trans {t u v} := ((linearAt t).composes u v).le

instance : Std.LawfulEqCmp (topOrder : Tree σ → Tree σ → Ordering) where
  compare_self {t} := topOrder_self t
  eq_of_compare {t u} := (linearAt t).eq u

end Tree

end Residual
