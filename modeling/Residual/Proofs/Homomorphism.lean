import Residual.Proofs.Factors
import Residual.Proofs.Flattening
import Residual.Regex.Substitution

/-!
# Replacing symbols commutes with building

A regex whose symbols are replaced by words is the regex that is built in the same way from the
words. This is not plain from the trees: what is built simplifies, and symbols that vanish or become
the same give it more to simplify, and other digests another order of members.

* **sequences** — `Substitution.apply_andThen`: what was absorbed or left out before is absorbed or
  left out afterwards, and the rest stands in the same order;
* **unions and intersections** — `Substitution.respectsJoins`: joins are taken member by member;
* **all operations** — `Regex.substitute_homomorphism`: hence replacing symbols twice is replacing
  them once, by the words of their words.

Words, repetitions and sequences commute with every substitution, also with one that confines
complements. Joins and complements are for `Substitution.plain`, which replaces nothing but symbols.
-/

namespace Residual

variable {σ τ υ : Type} [Symbol σ] [Symbol τ] [Symbol υ]

/-! ## Laws of single operations -/

namespace Regex

theorem star_star (r : Regex σ) : r.star.star = r.star := by
  rw [← tree_inj]
  show r.tree.star.star = r.tree.star
  cases r.tree <;> rfl

theorem complement_complement (r : Regex σ) : r.complement.complement = r := by
  rw [← tree_inj]
  show r.tree.complement.complement = r.tree
  cases h : r.tree with
  | negation t =>
      -- below a complement there is none that would cancel
      have canonical := r.canonical
      rw [h] at canonical
      cases canonical with
      | negation _ single => cases t <;> first | rfl | simp [Tree.isNegation] at single
  | _ => rfl

end Regex

/-! ## Trees -/

namespace Substitution

variable (f : Substitution σ τ)

theorem apply_epsilon : f.apply .epsilon = .epsilon := rfl

theorem apply_word (cs : List σ) : f.apply (.word cs) = .word (cs.flatMap f.code) := by
  cases cs with
  | nil => exact f.apply_epsilon
  | cons c cs => exact f.apply_block (c :: cs)

theorem apply_star (t : Tree σ) : f.apply t.star = (f.apply t).star := by
  unfold Tree.star
  split
  · rw [apply_closure, Regex.star_star]
  · rw [apply_closure]

theorem apply_pair (t u : Tree σ) : f.apply (.pair t u) = (f.apply t).andThen (f.apply u) := by
  unfold Tree.pair
  split
  · next absorbed =>
    rw [apply_fail, eq_comm, Regex.andThen_eq_fail]
    rcases (Bool.or_eq_true _ _).mp absorbed with h | h
    · rw [Tree.isFail_iff.mp h, apply_fail]
      exact .inl rfl
    · rw [Tree.isFail_iff.mp h, apply_fail]
      exact .inr rfl
  · split
    · next h => rw [Tree.isEpsilon_iff.mp h, apply_epsilon, Regex.epsilon_andThen]
    · split
      · next h => rw [Tree.isEpsilon_iff.mp h, apply_epsilon, Regex.andThen_epsilon]
      · rw [apply_sequence]

theorem apply_andThen (t u : Tree σ) :
    f.apply (t.andThen u) = (f.apply t).andThen (f.apply u) := by
  induction t using Tree.ind generalizing u with
  | sequence t t' ih ih' =>
      rw [Tree.sequence_andThen, ih, ih', apply_sequence, Regex.andThen_assoc]
  | _ => rw [Tree.andThen_of_not_sequence rfl, apply_pair]

/-- The substitution that replaces symbols and nothing else. -/
def plain (code : σ → List τ) : Substitution σ τ :=
  ⟨code, .any, id⟩

variable (code : σ → List τ)

theorem plain_negation (t : Tree σ) :
    (plain code).apply (.negation t) = ((plain code).apply t).complement := rfl

theorem apply_complement (t : Tree σ) :
    (plain code).apply t.complement = ((plain code).apply t).complement := by
  unfold Tree.complement
  split
  · rw [plain_negation, Regex.complement_complement]
  · rw [plain_negation]

theorem apply_success : (plain code).apply .success = .success := rfl

theorem respectsJoins (op : Connective) :
    Tree.RespectsJoins op fun t => ((plain code).apply t).tree where
  canonical _ _ := Regex.canonical _
  unit := by
    cases op with
    | or => exact congrArg Regex.tree (apply_fail _)
    | and => exact congrArg Regex.tree (apply_success code)
  zero := by
    cases op with
    | or => exact congrArg Regex.tree (apply_success code)
    | and => exact congrArg Regex.tree (apply_fail _)
  join members := by
    rw [apply_join]
    show Tree.combine op ((members.map (plain code).apply).map Regex.tree) = _
    rw [List.map_map]
    rfl

end Substitution

/-! ## Regexes -/

namespace Regex

/-- The map takes what is built of regexes to what is built in the same way of the regexes that they
become, starting from the words of the symbols. -/
structure Homomorphism (code : σ → List τ) (h : Regex σ → Regex τ) : Prop where
  single : ∀ c, h (single c) = word (code c)
  word : ∀ cs, h (word cs) = .word (cs.flatMap code)
  any : h any = .any
  fail : h fail = .fail
  epsilon : h epsilon = .epsilon
  success : h success = .success
  star : ∀ r, h r.star = (h r).star
  plus : ∀ r, h r.plus = (h r).plus
  optional : ∀ r, h r.optional = (h r).optional
  complement : ∀ r, h r.complement = (h r).complement
  andThen : ∀ r s, h (r.andThen s) = (h r).andThen (h s)
  or : ∀ r s, h (r.or s) = (h r).or (h s)
  and : ∀ r s, h (r.and s) = (h r).and (h s)
  concat : ∀ rs, h (concat rs) = .concat (rs.map h)
  alternation : ∀ rs, h (alternation rs) = .alternation (rs.map h)
  intersection : ∀ rs, h (intersection rs) = .intersection (rs.map h)

variable (code : σ → List τ)

theorem substitute_andThen (r s : Regex σ) :
    (r.andThen s).substitute code = (r.substitute code).andThen (s.substitute code) :=
  (Substitution.plain code).apply_andThen r.tree s.tree

theorem substitute_star (r : Regex σ) : r.star.substitute code = (r.substitute code).star :=
  (Substitution.plain code).apply_star r.tree

theorem substitute_combine (op : Connective) (rs : List (Regex σ)) :
    (combine op rs).substitute code = combine op (rs.map fun r => r.substitute code) := by
  have canonical : ∀ t ∈ rs.map tree, t.Canonical := canonical_of_mem_map
  have joined := (Substitution.respectsJoins code op).map_combine canonical
  rw [List.map_map] at joined
  rw [← tree_inj]
  show _ = Tree.combine op ((rs.map fun r => r.substitute code).map tree)
  rw [List.map_map]
  exact joined

theorem substitute_concat (rs : List (Regex σ)) :
    (concat rs).substitute code = concat (rs.map fun r => r.substitute code) := by
  induction rs with
  | nil => exact (Substitution.plain code).apply_epsilon
  | cons r rs ih => rw [concat_cons, substitute_andThen, ih, List.map_cons, concat_cons]

theorem homomorphism_substitute : Homomorphism code fun r => r.substitute code where
  single c := (Substitution.plain code).apply_single c
  word cs := (Substitution.plain code).apply_word cs
  any := (Substitution.plain code).apply_any
  fail := (Substitution.plain code).apply_fail
  epsilon := (Substitution.plain code).apply_epsilon
  success := Substitution.apply_success code
  star r := substitute_star code r
  plus r := by rw [plus, substitute_andThen, substitute_star, plus]
  optional r := by
    have nothing : epsilon.substitute code = .epsilon := (Substitution.plain code).apply_epsilon
    rw [optional, or, alternation, substitute_combine, List.map_cons, List.map_singleton, nothing]
    rfl
  complement r := Substitution.apply_complement code r.tree
  andThen r s := substitute_andThen code r s
  or r s := substitute_combine code .or [r, s]
  and r s := substitute_combine code .and [r, s]
  concat rs := substitute_concat code rs
  alternation rs := substitute_combine code .or rs
  intersection rs := substitute_combine code .and rs

/-- Replacing symbols twice is replacing them by the words of their words. -/
theorem substitute_apply (g : τ → List υ) (t : Tree σ) :
    ((Substitution.plain code).apply t).substitute g =
      (Substitution.plain fun c => (code c).flatMap g).apply t := by
  have replaces := homomorphism_substitute g
  induction t using Tree.ind with
  | single c =>
      rw [Substitution.apply_single, Substitution.apply_single]
      exact replaces.word (code c)
  | block cs =>
      rw [Substitution.apply_block, Substitution.apply_block]
      show (word (cs.flatMap code)).substitute g = .word (cs.flatMap fun c => (code c).flatMap g)
      rw [replaces.word, List.flatMap_assoc]
  | any =>
      rw [Substitution.apply_any, Substitution.apply_any]
      exact replaces.any
  | fail =>
      rw [Substitution.apply_fail, Substitution.apply_fail]
      exact replaces.fail
  | closure t ih =>
      rw [Substitution.apply_closure, Substitution.apply_closure, replaces.star, ih]
  | negation t ih =>
      rw [Substitution.plain_negation, Substitution.plain_negation, replaces.complement, ih]
  | sequence t u iht ihu =>
      rw [Substitution.apply_sequence, Substitution.apply_sequence, replaces.andThen, iht, ihu]
  | join op members ih =>
      rw [Substitution.apply_join, Substitution.apply_join, substitute_combine, List.map_map]
      exact congrArg _ (List.map_congr_left ih)

/-- Replacing symbols by words commutes with every way of building a regex, and replacing symbols by
words and then those of the words is replacing them once. Words may be empty and symbols may share
them. -/
theorem substitute_homomorphism (f : σ → List τ) (g : τ → List υ) :
    (Homomorphism f fun r => r.substitute f) ∧
    ∀ r : Regex σ, (r.substitute f).substitute g = r.substitute fun c => (f c).flatMap g :=
  ⟨homomorphism_substitute f, fun r => substitute_apply f g r.tree⟩

end Regex

end Residual
