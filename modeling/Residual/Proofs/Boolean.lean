import Residual.Proofs.Homomorphism

/-!
# Boolean operations and derivatives

What is left of a union, an intersection or a complement is the union, the intersection or the
complement of what is left. This is so of the regexes themselves and not only of what they match,
although members may come to coincide, to vanish, to absorb the others or to be joins themselves,
and complements may cancel: before or after the derivative, what is written is the same.

`Regex.BooleanHomomorphism` are the maps that respect the Boolean operations. The derivative by a
symbol is one (`homomorphism_derivative`), they compose, and so the derivative by a word is one as
well (`residual_boolean`).
-/

namespace Residual

variable {σ : Type} [Symbol σ]

/-- A complement that cancels does so before the derivative as well as afterwards. -/
theorem Tree.Canonical.derivative_complement {t : Tree σ} (ht : t.Canonical) (c : σ) :
    t.complement.derivative c = (t.derivative c).complement := by
  cases ht with
  | @negation t canonical single =>
      have cancelled := Regex.complement_complement ⟨t.derivative c, canonical.derivative c⟩
      rw [derivative_negation]
      exact (congrArg Regex.tree cancelled).symm
  | _ => exact derivative_negation _ c

namespace Regex

/-- The map takes the Boolean operations on regexes to the same operations on what they become. -/
structure BooleanHomomorphism (h : Regex σ → Regex σ) : Prop where
  alternation : ∀ rs, h (alternation rs) = .alternation (rs.map h)
  intersection : ∀ rs, h (intersection rs) = .intersection (rs.map h)
  complement : ∀ r, h r.complement = (h r).complement

theorem BooleanHomomorphism.id : BooleanHomomorphism fun r : Regex σ => r where
  alternation rs := by rw [List.map_id']
  intersection rs := by rw [List.map_id']
  complement _ := rfl

theorem BooleanHomomorphism.comp {f g : Regex σ → Regex σ} (hg : BooleanHomomorphism g)
    (hf : BooleanHomomorphism f) : BooleanHomomorphism fun r => g (f r) where
  alternation rs := by
    rw [hf.alternation, hg.alternation, List.map_map]
    rfl
  intersection rs := by
    rw [hf.intersection, hg.intersection, List.map_map]
    rfl
  complement r := by rw [hf.complement, hg.complement]

theorem derivative_combine (op : Connective) (rs : List (Regex σ)) (c : σ) :
    (combine op rs).derivative c = combine op (rs.map fun r => r.derivative c) := by
  rw [← tree_inj]
  show (Tree.combine op (rs.map tree)).derivative c =
    Tree.combine op ((rs.map fun r => r.derivative c).map tree)
  rw [Tree.derivative_combine canonical_of_mem_map, List.map_map, List.map_map]
  rfl

theorem homomorphism_derivative (c : σ) :
    BooleanHomomorphism fun r : Regex σ => r.derivative c where
  alternation rs := derivative_combine .or rs c
  intersection rs := derivative_combine .and rs c
  complement r := tree_inj.mp (r.canonical.derivative_complement c)

/-- The derivative by a word of a union, an intersection or a complement is the union, the
intersection or the complement of the derivatives by the word. -/
theorem residual_boolean (w : List σ) : BooleanHomomorphism fun r : Regex σ => r.residual w := by
  induction w with
  | nil => exact .id
  | cons c w ih => exact ih.comp (homomorphism_derivative c)

end Regex

end Residual
