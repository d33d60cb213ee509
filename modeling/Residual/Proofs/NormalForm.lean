import Residual.Encoding
import Residual.Pattern.Parser

/-!
# The normal form of regexes

What a regex can look like. `Regex.Obtainable` are the regexes that operations make out of
operations, and `Tree.WellFormed` is what can be asked of a node by looking at it and its children.

* `Tree.all_iff` — what is checked node by node holds of every node, which decides such statements;
* `Tree.canonical_iff` — a tree is canonical when all its nodes are well formed;
* `Regex.obtainable_iff_wellFormed` — the trees whose nodes are all well formed are exactly those
  of the regexes that can be obtained.
-/

namespace Residual

namespace Tree

variable {σ : Type} [Symbol σ]

/-! ## Nodes -/

/-- The tree `n` is a node of a tree, with everything below it. -/
inductive Node (n : Tree σ) : Tree σ → Prop
  | root : Node n n
  | closure {t : Tree σ} (below : Node n t) : Node n (closure t)
  | negation {t : Tree σ} (below : Node n t) : Node n (negation t)
  | left {t u : Tree σ} (below : Node n t) : Node n (sequence t u)
  | right {t u : Tree σ} (below : Node n u) : Node n (sequence t u)
  | member {op : Connective} {ts : List (Tree σ)} {t : Tree σ} (mem : t ∈ ts) (below : Node n t) :
      Node n (join op ts)

/-! What holds of every node holds of the top node and of every node below. -/

variable {p : Tree σ → Prop}

theorem forall_node_closure {t : Tree σ} :
    (∀ n, Node n (closure t) → p n) ↔ p (closure t) ∧ ∀ n, Node n t → p n := by
  constructor
  · intro h
    exact ⟨h _ .root, fun n below => h n (.closure below)⟩
  · rintro ⟨root, inside⟩ n node
    cases node with
    | root => exact root
    | closure below => exact inside n below

theorem forall_node_negation {t : Tree σ} :
    (∀ n, Node n (negation t) → p n) ↔ p (negation t) ∧ ∀ n, Node n t → p n := by
  constructor
  · intro h
    exact ⟨h _ .root, fun n below => h n (.negation below)⟩
  · rintro ⟨root, inside⟩ n node
    cases node with
    | root => exact root
    | negation below => exact inside n below

theorem forall_node_sequence {t u : Tree σ} :
    (∀ n, Node n (sequence t u) → p n) ↔
      p (sequence t u) ∧ (∀ n, Node n t → p n) ∧ ∀ n, Node n u → p n := by
  constructor
  · intro h
    exact ⟨h _ .root, fun n below => h n (.left below), fun n below => h n (.right below)⟩
  · rintro ⟨root, left, right⟩ n node
    cases node with
    | root => exact root
    | left below => exact left n below
    | right below => exact right n below

theorem forall_node_join {op : Connective} {ts : List (Tree σ)} :
    (∀ n, Node n (join op ts) → p n) ↔ p (join op ts) ∧ ∀ t ∈ ts, ∀ n, Node n t → p n := by
  constructor
  · intro h
    exact ⟨h _ .root, fun t mem n below => h n (.member mem below)⟩
  · rintro ⟨root, members⟩ n node
    cases node with
    | root => exact root
    | member mem below => exact members _ mem n below

mutual

/-- Every node of a tree passes the check. -/
def all (check : Tree σ → Bool) (t : Tree σ) : Bool :=
  check t &&
    match t with
    | single _ | block _ | any | fail => true
    | closure t | negation t => t.all check
    | sequence t u => t.all check && u.all check
    | join _ members => allMembers check members

/-- Every node of all trees of a list passes the check. -/
def allMembers (check : Tree σ → Bool) (ts : List (Tree σ)) : Bool :=
  match ts with
  | [] => true
  | t :: ts => t.all check && allMembers check ts

end

theorem allMembers_eq_all (check : Tree σ → Bool) (ts : List (Tree σ)) :
    allMembers check ts = ts.all fun t => t.all check := by
  induction ts with
  | nil => rw [allMembers, List.all_nil]
  | cons t ts ih => rw [allMembers, List.all_cons, ih]

theorem all_iff {check : Tree σ → Bool} {t : Tree σ} :
    t.all check = true ↔ ∀ n, Node n t → check n = true := by
  induction t using ind with
  | closure t ih => rw [all, Bool.and_eq_true, ih, forall_node_closure]
  | negation t ih => rw [all, Bool.and_eq_true, ih, forall_node_negation]
  | sequence t u iht ihu =>
      rw [all, Bool.and_eq_true, Bool.and_eq_true, iht, ihu, forall_node_sequence]
  | join op ts ih =>
      rw [all, Bool.and_eq_true, allMembers_eq_all, List.all_eq_true, forall_node_join]
      exact and_congr_right fun _ => forall₂_congr ih
  | _ =>
      rw [all, Bool.and_true]
      constructor
      · rintro root n ⟨⟩
        exact root
      · intro h
        exact h _ .root

instance (p : Tree σ → Prop) [DecidablePred p] (t : Tree σ) : Decidable (∀ n, Node n t → p n) :=
  decidable_of_iff (t.all (fun n => decide (p n)) = true) <| by
    simp only [all_iff, decide_eq_true_eq]

/-- What holds of every node of a regex: blocks are not empty, repetitions do not repeat
repetitions, complements do not cancel, sequences nest to the right and have no `fail` or `epsilon`
in them, and a connective has several members in strictly increasing order, none of which is a
connective of its kind, `fail` or `success`. -/
def WellFormed : Tree σ → Prop
  | single _ => True
  | block cs => cs ≠ []
  | any => True
  | fail => True
  | closure t => ∀ u, t ≠ closure u
  | negation t => ∀ u, t ≠ negation u
  | sequence t u => (∀ v w, t ≠ sequence v w) ∧ (t ≠ fail ∧ t ≠ epsilon) ∧ (u ≠ fail ∧ u ≠ epsilon)
  | join op ts => 2 ≤ ts.length ∧ (ts.Pairwise fun t u => order t u = .lt) ∧ ts.Nodup ∧
      ∀ t ∈ ts, (∀ us, t ≠ join op us) ∧ t ≠ fail ∧ t ≠ success

theorem isClosure_eq_false {t : Tree σ} : t.isClosure = false ↔ ∀ u, t ≠ closure u := by
  cases t <;> simp [isClosure]

theorem isNegation_eq_false {t : Tree σ} : t.isNegation = false ↔ ∀ u, t ≠ negation u := by
  cases t <;> simp [isNegation]

theorem isSequence_eq_false {t : Tree σ} :
    t.isSequence = false ↔ ∀ v w, t ≠ sequence v w := by
  cases t <;> simp [isSequence]

theorem isJoin_eq_false {op : Connective} {t : Tree σ} :
    t.isJoin op = false ↔ ∀ us, t ≠ join op us := by
  cases t <;> simp [isJoin, eq_comm]

/-- The unit and the zero of a connective are `fail` and `success`, one way or the other. -/
theorem joins_iff {op : Connective} {t : Tree σ} :
    op.Joins t ↔ (∀ us, t ≠ join op us) ∧ t ≠ fail ∧ t ≠ success := by
  rw [← isJoin_eq_false]
  cases op with
  | or => exact ⟨fun h => ⟨h.flat, h.ne_unit, h.ne_zero⟩, fun ⟨flat, a, b⟩ => ⟨flat, a, b⟩⟩
  | and => exact ⟨fun h => ⟨h.flat, h.ne_zero, h.ne_unit⟩, fun ⟨flat, a, b⟩ => ⟨flat, b, a⟩⟩

theorem Increasing.nodup {ts : List (Tree σ)} (h : Increasing ts) : ts.Nodup :=
  h.imp ne_of_order_lt

/-- Children of canonical trees are canonical, and so are all nodes below them. -/
theorem Canonical.node {n t : Tree σ} (ht : t.Canonical) (h : Node n t) : n.Canonical := by
  induction h with
  | root => exact ht
  | closure _ ih =>
      cases ht with
      | closure canonical _ => exact ih canonical
  | negation _ ih =>
      cases ht with
      | negation canonical _ => exact ih canonical
  | left _ ih =>
      cases ht with
      | sequence left _ _ _ _ => exact ih left
  | right _ ih =>
      cases ht with
      | sequence _ right _ _ _ => exact ih right
  | member mem _ ih =>
      cases ht with
      | join canonical _ _ _ => exact ih (canonical _ mem)

theorem Canonical.wellFormed {t : Tree σ} (ht : t.Canonical) : t.WellFormed := by
  cases ht with
  | single c => exact trivial
  | block nonempty => exact nonempty
  | any => exact trivial
  | fail => exact trivial
  | closure _ single => exact isClosure_eq_false.mp single
  | negation _ single => exact isNegation_eq_false.mp single
  | sequence _ _ nested left_ne right_ne =>
      exact ⟨isSequence_eq_false.mp nested, left_ne, right_ne⟩
  | join _ joins increasing several =>
      exact ⟨several, increasing, increasing.nodup, fun t mem => joins_iff.mp (joins t mem)⟩

/-- A tree is canonical when every node is well formed. -/
theorem canonical_iff {t : Tree σ} : t.Canonical ↔ ∀ n, Node n t → n.WellFormed := by
  constructor
  · intro ht n h
    exact (ht.node h).wellFormed
  · intro h
    induction t using ind with
    | single c => exact .single c
    | block cs => exact .block (h _ .root)
    | any => exact .any
    | fail => exact .fail
    | closure t ih =>
        obtain ⟨root, inside⟩ := forall_node_closure.mp h
        exact .closure (ih inside) (isClosure_eq_false.mpr root)
    | negation t ih =>
        obtain ⟨root, inside⟩ := forall_node_negation.mp h
        exact .negation (ih inside) (isNegation_eq_false.mpr root)
    | sequence t u iht ihu =>
        obtain ⟨⟨nested, left_ne, right_ne⟩, left, right⟩ := forall_node_sequence.mp h
        exact .sequence (iht left) (ihu right) (isSequence_eq_false.mpr nested) left_ne right_ne
    | join op ts ih =>
        obtain ⟨⟨several, increasing, -, joins⟩, members⟩ := forall_node_join.mp h
        exact .join (fun t mem => ih t mem (members t mem))
          (fun t mem => joins_iff.mpr (joins t mem)) increasing several

theorem star_of_single {t : Tree σ} (h : t.isClosure = false) : t.star = closure t := by
  cases t <;> simp_all [star, isClosure]

theorem complement_of_single {t : Tree σ} (h : t.isNegation = false) :
    t.complement = negation t := by
  cases t <;> simp_all [complement, isNegation]

end Tree

namespace Regex

/-! ## Operations -/

/-- The regexes that operations make: the constructors, derivatives, regexes over other alphabets,
encodings, patterns, and all parts of what was made before. -/
inductive Obtainable : {σ : Type} → [Symbol σ] → Regex σ → Prop
  | single {σ : Type} [Symbol σ] (c : σ) : Obtainable (single c)
  | word {σ : Type} [Symbol σ] (cs : List σ) : Obtainable (word cs)
  | any {σ : Type} [Symbol σ] : Obtainable (any : Regex σ)
  | fail {σ : Type} [Symbol σ] : Obtainable (fail : Regex σ)
  | epsilon {σ : Type} [Symbol σ] : Obtainable (epsilon : Regex σ)
  | success {σ : Type} [Symbol σ] : Obtainable (success : Regex σ)
  | star {σ : Type} [Symbol σ] {r : Regex σ} (hr : Obtainable r) : Obtainable r.star
  | plus {σ : Type} [Symbol σ] {r : Regex σ} (hr : Obtainable r) : Obtainable r.plus
  | optional {σ : Type} [Symbol σ] {r : Regex σ} (hr : Obtainable r) : Obtainable r.optional
  | complement {σ : Type} [Symbol σ] {r : Regex σ} (hr : Obtainable r) : Obtainable r.complement
  | andThen {σ : Type} [Symbol σ] {r s : Regex σ} (hr : Obtainable r) (hs : Obtainable s) :
      Obtainable (r.andThen s)
  | or {σ : Type} [Symbol σ] {r s : Regex σ} (hr : Obtainable r) (hs : Obtainable s) :
      Obtainable (r.or s)
  | and {σ : Type} [Symbol σ] {r s : Regex σ} (hr : Obtainable r) (hs : Obtainable s) :
      Obtainable (r.and s)
  | concat {σ : Type} [Symbol σ] {rs : List (Regex σ)} (hrs : ∀ r ∈ rs, Obtainable r) :
      Obtainable (concat rs)
  | alternation {σ : Type} [Symbol σ] {rs : List (Regex σ)} (hrs : ∀ r ∈ rs, Obtainable r) :
      Obtainable (alternation rs)
  | intersection {σ : Type} [Symbol σ] {rs : List (Regex σ)} (hrs : ∀ r ∈ rs, Obtainable r) :
      Obtainable (intersection rs)
  | derivative {σ : Type} [Symbol σ] {r : Regex σ} (hr : Obtainable r) (c : σ) :
      Obtainable (r.derivative c)
  | substitute {σ τ : Type} [Symbol σ] [Symbol τ] {r : Regex σ} (hr : Obtainable r)
      (code : σ → List τ) : Obtainable (r.substitute code)
  | substituteWithin {σ τ : Type} [Symbol σ] [Symbol τ] {r : Regex σ} {piece : Regex τ}
      (hr : Obtainable r) (code : σ → List τ) (hpiece : Obtainable piece) :
      Obtainable (r.substituteWithin code piece)
  | encode {r : Regex Char} (hr : Obtainable r) (e : Encoding) : Obtainable (r.encode e)
  | piece (e : Encoding) : Obtainable e.piece
  | parse {text : String} {r : Regex Char} (h : parse text = .ok r) : Obtainable r
  | part {σ : Type} [Symbol σ] {r s : Regex σ} (hr : Obtainable r)
      (node : Tree.Node s.tree r.tree) : Obtainable s

variable {σ : Type} [Symbol σ]

/-- Trees of obtainable regexes are the trees of a list of them. -/
theorem exists_obtainable_of_forall {ts : List (Tree σ)}
    (h : ∀ t ∈ ts, ∃ r : Regex σ, r.Obtainable ∧ r.tree = t) :
    ∃ rs : List (Regex σ), (∀ r ∈ rs, r.Obtainable) ∧ rs.map tree = ts := by
  induction ts with
  | nil => exact ⟨[], fun r mem => absurd mem List.not_mem_nil, rfl⟩
  | cons t ts ih =>
      obtain ⟨r, hr, rfl⟩ := h t (List.mem_cons_self ..)
      obtain ⟨rs, hrs, rfl⟩ := ih fun u mem => h u (List.mem_cons_of_mem _ mem)
      refine ⟨r :: rs, ?_, rfl⟩
      intro s mem
      rcases List.mem_cons.mp mem with rfl | mem
      · exact hr
      · exact hrs s mem

/-- Every canonical tree is written by the operation of its top node. -/
theorem exists_obtainable {t : Tree σ} (ht : t.Canonical) :
    ∃ r : Regex σ, r.Obtainable ∧ r.tree = t := by
  induction ht with
  | single c => exact ⟨_, .single c, rfl⟩
  | @block cs nonempty =>
      refine ⟨_, .word cs, ?_⟩
      cases cs with
      | nil => exact absurd rfl nonempty
      | cons c cs => rfl
  | any => exact ⟨_, .any, rfl⟩
  | fail => exact ⟨_, .fail, rfl⟩
  | closure _ single ih =>
      obtain ⟨r, hr, rfl⟩ := ih
      exact ⟨_, .star hr, Tree.star_of_single single⟩
  | negation _ single ih =>
      obtain ⟨r, hr, rfl⟩ := ih
      exact ⟨_, .complement hr, Tree.complement_of_single single⟩
  | sequence left right nested left_ne right_ne iht ihu =>
      obtain ⟨r, hr, rfl⟩ := iht
      obtain ⟨s, hs, rfl⟩ := ihu
      have whole := Tree.Canonical.sequence left right nested left_ne right_ne
      exact ⟨_, .andThen hr hs, (Tree.sequence_eq_andThen whole).symm⟩
  | @join op members canonical joins increasing several ih =>
      obtain ⟨rs, hrs, rfl⟩ := exists_obtainable_of_forall ih
      have whole := Tree.combine_members (.join canonical joins increasing several)
      cases op with
      | or => exact ⟨_, .alternation hrs, whole⟩
      | and => exact ⟨_, .intersection hrs, whole⟩

/-- The trees of all regexes that can be obtained are the trees with well-formed nodes only. -/
theorem obtainable_iff_wellFormed (t : Tree σ) :
    (∃ r : Regex σ, r.Obtainable ∧ r.tree = t) ↔ ∀ n, Tree.Node n t → n.WellFormed := by
  rw [← Tree.canonical_iff]
  constructor
  · rintro ⟨r, -, rfl⟩
    exact r.canonical
  · intro ht
    exact exists_obtainable ht

end Regex

end Residual
