import Mathlib.Data.Set.Defs
import Residual.Regex.Basic

/-!
# Unions and intersections are sets of members

A join of regexes is known by its flattened members: a regex that is such a connective itself brings
its members, any other brings itself, and the unit does not count (`Regex.flattened`).

* **members** — `mem_flattened`: these are the trees that the operation gathers;
* **joins** — `combine_eq_iff`: two joins are equal when both are absorbed, or neither is and they
  have the same flattened members;
* **laws** — `joins_combine`: so nothing is left of the order, the grouping and the repetitions in
  which regexes were joined.

Equality is equality of the regexes themselves. Nothing is asked of digests: members with one digest
are put in order by structure.
-/

namespace Residual

variable {σ : Type} [Symbol σ] {op : Connective}

/-- What trees of regexes contribute to a connective are trees of regexes. -/
theorem Tree.Canonical.of_mem_contribution {t u : Tree σ} (ht : t.Canonical)
    (hu : u ∈ Tree.contribution op t) : u.Canonical := by
  by_cases zero : t = op.zero
  · rw [zero, Tree.contribution_zero, List.mem_singleton] at hu
    rw [hu]
    exact Tree.canonical_zero op
  · exact (ht.joins_of_mem_contribution zero hu).1

namespace Regex

/-- What no members at all make. -/
def unit : Connective → Regex σ
  | .or => fail
  | .and => success

/-- What absorbs every other member. -/
def zero : Connective → Regex σ
  | .or => success
  | .and => fail

theorem tree_unit (op : Connective) : (unit op : Regex σ).tree = op.unit := by
  cases op <;> rfl

theorem tree_zero (op : Connective) : (zero op : Regex σ).tree = op.zero := by
  cases op <;> rfl

theorem combine_nil : combine op ([] : List (Regex σ)) = unit op := by
  rw [← tree_inj, tree_unit]
  exact Tree.combine_nil

/-! ## Members -/

/-- The regex `m` is a member that `r` brings to a connective: one of the members of `r` if that is
such a connective itself, and otherwise `r`. -/
inductive Brings (op : Connective) (r : Regex σ) : Regex σ → Prop
  | member {m : Regex σ} {ts : List (Tree σ)} (join : r.tree = .join op ts) (mem : m.tree ∈ ts) :
      Brings op r m
  | whole (flat : ∀ ts, r.tree ≠ .join op ts) : Brings op r r

/-- The members that regexes bring to a connective, without its unit. -/
def flattened (op : Connective) (rs : List (Regex σ)) : Set (Regex σ) :=
  {m | (∃ r ∈ rs, r.Brings op m) ∧ m ≠ unit op}

theorem ne_unit_iff {m : Regex σ} : m ≠ unit op ↔ m.tree ≠ op.unit := by
  rw [ne_eq, ← tree_inj, tree_unit]

theorem mem_contribution_join {r m : Regex σ} {ts : List (Tree σ)} (join : r.tree = .join op ts) :
    m.tree ∈ Tree.contribution op r.tree ↔ r.Brings op m ∧ m ≠ unit op := by
  have ne : r.tree ≠ op.zero := by
    rw [join]
    cases op <;> simp [Connective.zero, Tree.success]
  constructor
  · intro mem
    have joins := (r.canonical.joins_of_mem_contribution ne mem).2
    rw [join, Tree.contribution_join] at mem
    exact ⟨.member join mem, ne_unit_iff.mpr joins.ne_unit⟩
  · rintro ⟨brings, -⟩
    cases brings with
    | member join' mem =>
        obtain rfl : ts = _ := by simpa [join] using join'
        rwa [join, Tree.contribution_join]
    | whole flat => exact absurd join (flat ts)

theorem mem_contribution_flat {r m : Regex σ} (flat : ∀ ts, r.tree ≠ .join op ts) :
    m.tree ∈ Tree.contribution op r.tree ↔ r.Brings op m ∧ m ≠ unit op := by
  have single : r.tree.isJoin op = false := by
    cases h : r.tree with
    | join op' ts =>
        rw [h] at flat
        have other : op ≠ op' := fun same => flat ts (same ▸ rfl)
        simpa [Tree.isJoin] using other
    | _ => rfl
  rw [Tree.contribution_of_flat single]
  constructor
  · intro mem
    split at mem
    · exact absurd mem List.not_mem_nil
    · next ne =>
      obtain rfl := tree_inj.mp (List.mem_singleton.mp mem)
      exact ⟨.whole flat, ne_unit_iff.mpr ne⟩
  · rintro ⟨brings, ne⟩
    cases brings with
    | member join _ => exact absurd join (flat _)
    | whole _ =>
        rw [if_neg (ne_unit_iff.mp ne)]
        exact List.mem_singleton_self _

/-- The flattened members are those whose trees the operation gathers. -/
theorem mem_flattened {rs : List (Regex σ)} {m : Regex σ} :
    m ∈ flattened op rs ↔ m.tree ∈ Tree.contributions op (rs.map tree) := by
  have each (r : Regex σ) : m.tree ∈ Tree.contribution op r.tree ↔ r.Brings op m ∧ m ≠ unit op := by
    by_cases join : ∃ ts, r.tree = .join op ts
    · obtain ⟨ts, join⟩ := join
      exact mem_contribution_join join
    · exact mem_contribution_flat fun ts eq => join ⟨ts, eq⟩
  rw [Tree.mem_contributions]
  constructor
  · rintro ⟨⟨r, mem, brings⟩, ne⟩
    exact ⟨r.tree, List.mem_map_of_mem mem, (each r).mpr ⟨brings, ne⟩⟩
  · rintro ⟨t, mem, contributes⟩
    obtain ⟨r, listed, rfl⟩ := List.mem_map.mp mem
    obtain ⟨brings, ne⟩ := (each r).mp contributes
    exact ⟨⟨r, listed, brings⟩, ne⟩

/-- Lists with the same flattened members are those for which the same trees are gathered. -/
theorem flattened_eq_iff {rs ss : List (Regex σ)} : flattened op rs = flattened op ss ↔
    ∀ t, t ∈ Tree.contributions op (rs.map tree) ↔ t ∈ Tree.contributions op (ss.map tree) := by
  constructor
  · intro same t
    -- only trees of regexes are gathered, and those are told by the sets
    by_cases ht : t.Canonical
    · have member : (⟨t, ht⟩ : Regex σ) ∈ flattened op rs ↔ ⟨t, ht⟩ ∈ flattened op ss := by
        rw [same]
      rwa [mem_flattened, mem_flattened] at member
    · have none (qs : List (Regex σ)) : t ∉ Tree.contributions op (qs.map tree) := by
        intro mem
        obtain ⟨u, hu, mem⟩ := Tree.mem_contributions.mp mem
        exact ht ((canonical_of_mem_map u hu).of_mem_contribution mem)
      exact iff_of_false (none rs) (none ss)
  · intro same
    ext m
    rw [mem_flattened, mem_flattened, same]

/-! ## Joins -/

theorem zero_mem_map_tree {rs : List (Regex σ)} : op.zero ∈ rs.map tree ↔ zero op ∈ rs := by
  rw [List.mem_map]
  constructor
  · rintro ⟨r, mem, eq⟩
    obtain rfl : r = zero op := tree_inj.mp (eq.trans (tree_zero op).symm)
    exact mem
  · intro mem
    exact ⟨zero op, mem, tree_zero op⟩

/-- Two joins are equal when both are absorbed, or when neither is and they have the same flattened
members. -/
theorem combine_eq_iff {rs ss : List (Regex σ)} : combine op rs = combine op ss ↔
    zero op ∈ rs ∧ zero op ∈ ss ∨
      zero op ∉ rs ∧ zero op ∉ ss ∧ flattened op rs = flattened op ss := by
  rw [← tree_inj, flattened_eq_iff, ← zero_mem_map_tree, ← zero_mem_map_tree]
  show Tree.combine op (rs.map tree) = Tree.combine op (ss.map tree) ↔ _
  have hrs : ∀ t ∈ rs.map tree, t.Canonical := canonical_of_mem_map
  have hss : ∀ t ∈ ss.map tree, t.Canonical := canonical_of_mem_map
  constructor
  · intro same
    have absorbed : op.zero ∈ rs.map tree ↔ op.zero ∈ ss.map tree := by
      rw [← Tree.combine_eq_zero hrs, ← Tree.combine_eq_zero hss, same]
    by_cases absorbs : op.zero ∈ rs.map tree
    · exact .inl ⟨absorbs, absorbed.mp absorbs⟩
    · have absorbs' := mt absorbed.mpr absorbs
      refine .inr ⟨absorbs, absorbs', ?_⟩
      -- the members can be read off a join that is not absorbed
      intro t
      rw [← Tree.mem_contribution_combine hrs absorbs, same,
        Tree.mem_contribution_combine hss absorbs']
  · rintro (⟨absorbs, absorbs'⟩ | ⟨-, -, same⟩)
    · rw [Tree.combine_of_zero_mem absorbs, Tree.combine_of_zero_mem absorbs']
    · exact Tree.combine_congr hrs hss same

/-! ## Laws -/

/-- Joins of joins are joins of everything in them. -/
theorem combine_map_combine (rss : List (List (Regex σ))) :
    combine op (rss.map (combine op)) = combine op rss.flatten := by
  rw [← tree_inj]
  have members : ∀ ts ∈ rss.map (List.map tree), ∀ t ∈ ts, t.Canonical := by
    intro ts mem
    obtain ⟨rs, -, rfl⟩ := List.mem_map.mp mem
    exact canonical_of_mem_map
  have nested : Tree.combine op ((rss.map (List.map tree)).map (Tree.combine op)) = _ :=
    Tree.combine_map_combine members
  rw [← List.map_flatten, List.map_map] at nested
  show Tree.combine op ((rss.map (combine op)).map tree) = Tree.combine op (rss.flatten.map tree)
  rw [List.map_map]
  exact nested

/-- A single member stands for itself. -/
theorem combine_singleton (r : Regex σ) : combine op [r] = r :=
  tree_inj.mp (Tree.combine_singleton r.canonical)

/-- Only what is joined matters, neither its order nor repetitions. -/
theorem combine_congr {rs ss : List (Regex σ)} (same : ∀ r, r ∈ rs ↔ r ∈ ss) :
    combine op rs = combine op ss := by
  rw [← tree_inj]
  apply Tree.combine_congr_mem canonical_of_mem_map
  intro t
  simp only [List.mem_map, same]

/-- A connective of two regexes that does not tell in which order, in which groups and how often it
was applied, with a unit and a zero. -/
structure BoundedSemilattice (join : Regex σ → Regex σ → Regex σ) (unit zero : Regex σ) : Prop where
  assoc : ∀ r s t, join (join r s) t = join r (join s t)
  comm : ∀ r s, join r s = join s r
  idem : ∀ r, join r r = r
  unit : ∀ r, join unit r = r
  zero : ∀ r, join zero r = zero

theorem joins_combine (op : Connective) :
    BoundedSemilattice (fun r s : Regex σ => combine op [r, s]) (unit op) (zero op) where
  assoc r s t :=
    calc combine op [combine op [r, s], t]
      _ = combine op [combine op [r, s], combine op [t]] := by rw [combine_singleton t]
      _ = combine op [r, s, t] := combine_map_combine [[r, s], [t]]
      _ = combine op [combine op [r], combine op [s, t]] := (combine_map_combine [[r], [s, t]]).symm
      _ = combine op [r, combine op [s, t]] := by rw [combine_singleton r]
  comm r s := combine_congr (by simp [or_comm])
  idem r :=
    calc combine op [r, r]
      _ = combine op [r] := combine_congr (by simp)
      _ = r := combine_singleton r
  unit r :=
    calc combine op [unit op, r]
      _ = combine op [combine op [], combine op [r]] := by rw [combine_nil, combine_singleton]
      _ = combine op [r] := combine_map_combine [[], [r]]
      _ = r := combine_singleton r
  zero r := by
    rw [← tree_inj, tree_zero]
    apply Tree.combine_of_zero_mem
    rw [zero_mem_map_tree]
    exact List.mem_cons_self ..

/-- Two unions are equal when `success` is among the members of both, or of neither and both have
the same flattened members. Intersections are the same with `fail` in place of `success`. So unions
and intersections of two regexes forget order, groups and repetitions. -/
theorem joins_eq_iff_flattened (σ : Type) [Symbol σ] :
    (∀ rs ss : List (Regex σ), alternation rs = alternation ss ↔
      success ∈ rs ∧ success ∈ ss ∨
        success ∉ rs ∧ success ∉ ss ∧ flattened .or rs = flattened .or ss) ∧
    (∀ rs ss : List (Regex σ), intersection rs = intersection ss ↔
      fail ∈ rs ∧ fail ∈ ss ∨ fail ∉ rs ∧ fail ∉ ss ∧ flattened .and rs = flattened .and ss) ∧
    BoundedSemilattice (@or σ _) fail success ∧ BoundedSemilattice (@and σ _) success fail := by
  refine ⟨?_, ?_, joins_combine .or, joins_combine .and⟩
  · intro rs ss
    exact combine_eq_iff
  · intro rs ss
    exact combine_eq_iff

end Regex

end Residual
