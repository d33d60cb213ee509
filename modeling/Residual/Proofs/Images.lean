import Residual.Proofs.Homomorphism
import Residual.Proofs.NormalForm
import Residual.Proofs.Substitution

/-!
# What a regex matches once its symbols are replaced

Two readings of `Regex.substitute` as an operation on languages:

* **coded words** — `Substitution.confined_plain`: when every symbol becomes a symbol of its own,
  the new regex takes the word that a word becomes for what the old regex took the word for. This
  is so for all regexes, although complements are now taken among the words of an alphabet that may
  have more symbols;
* **images** — `Substitution.language_plain`: whatever the words of symbols are, a rational regex
  becomes a regex whose matches are those of the old one, replaced symbol by symbol. Complements,
  intersections and "any symbol" do not keep to this.

For the first the pieces are the words of one symbol, so that every word is a sequence of pieces. The
second rests on `coded`: replacing symbols preserves the operations on languages that rational
regexes are made with.
-/

namespace Residual

open Computability

/-! ## Images of languages -/

section Coded

variable {α β : Type}

/-- The words of a language with every symbol replaced by its word. -/
def coded (code : α → List β) : Language α →+* Language β where
  toFun := Set.image (List.flatMap code)
  map_zero' := Set.image_empty _
  map_one' := Set.image_singleton
  map_add' := Set.image_union _
  map_mul' _ _ := Set.image_image2_distrib fun _ _ => List.flatMap_append

variable (code : α → List β)

theorem mem_coded {L : Language α} {x : List β} :
    x ∈ coded code L ↔ ∃ w ∈ L, w.flatMap code = x :=
  Iff.rfl

theorem coded_kstar (L : Language α) : coded code L∗ = (coded code L)∗ := by
  rw [Language.kstar_eq_iSup_pow, Language.kstar_eq_iSup_pow]
  simp_rw [← map_pow]
  exact Set.image_iUnion

/-- Parts of one symbol each are the symbols of what they make up. -/
theorem eq_map_flatten {parts : List (List α)} (h : ∀ x ∈ parts, ∃ c, x = [c]) :
    parts = parts.flatten.map fun c => [c] := by
  induction parts with
  | nil => rfl
  | cons x parts ih =>
      obtain ⟨c, rfl⟩ := h x (List.mem_cons_self ..)
      have rest := ih fun y hy => h y (List.mem_cons_of_mem _ hy)
      exact congrArg ([c] :: ·) rest

end Coded

variable {σ τ : Type} [Symbol σ] [Symbol τ]

/-! ## Symbols for symbols -/

theorem kstar_language_any : (Regex.any : Regex σ).language∗ = ⊤ := by
  apply top_unique
  intro w _
  rw [← List.flatMap_singleton' w]
  exact flatMap_mem_kstar (fun c => Regex.mem_language_any.mpr ⟨c, rfl⟩) w

/-- With a symbol of its own for every symbol, the pieces of a coded word are its symbols. -/
theorem aligned_singletons {α : Type} {f : α → τ} (injective : Function.Injective f) :
    Aligned (fun c => [f c]) (Regex.any : Regex τ).language where
  covers c := Regex.mem_language_any.mpr ⟨f c, rfl⟩
  injective _ _ same := injective (List.singleton_injective same)
  unique w parts pieces whole :=
    calc parts = parts.flatten.map fun d => [d] :=
          eq_map_flatten fun x hx => Regex.mem_language_any.mp (pieces x hx)
      _ = (w.map f).map fun d => [d] := by rw [whole, ← List.map_eq_flatMap]
      _ = w.map fun c => [f c] := List.map_map

namespace Substitution

/-- Every word is a sequence of symbols, so that complements need not be confined. -/
theorem confined_plain (f : σ → τ) :
    (plain fun c => [f c]).Confined (Regex.any : Regex τ).language where
  covers c := Regex.mem_language_any.mpr ⟨f c, rfl⟩
  anyone := rfl
  confine r := by
    rw [kstar_language_any, inf_top_eq]
    rfl

end Substitution

/-! ## Rational regexes -/

/-- The node is a word, a repetition, a sequence or a union. -/
def Tree.isRational : Tree σ → Bool
  | any | negation _ | join .and _ => false
  | single _ | block _ | fail | closure _ | sequence _ _ | join .or _ => true

theorem Regex.language_word_flatMap {α : Type} (code : α → List τ) (w : List α) :
    (word (w.flatMap code)).language = coded code {w} := by
  ext x
  rw [mem_language_word, mem_coded]
  constructor
  · rintro rfl
    exact ⟨w, rfl, rfl⟩
  · rintro ⟨_, rfl, rfl⟩
    rfl

namespace Substitution

variable (code : σ → List τ)

/-- A rational tree becomes a regex for the image of what it matches. -/
theorem language_plain {t : Tree σ} (rational : ∀ n, Tree.Node n t → n.isRational = true) :
    ((plain code).apply t).language = coded code t.language := by
  induction t using Tree.ind with
  | single c =>
      have word := Regex.language_word_flatMap code [c]
      rw [List.flatMap_singleton] at word
      rw [apply_single]
      exact word
  | block cs =>
      rw [apply_block]
      exact Regex.language_word_flatMap code cs
  | any => exact absurd (rational _ .root) Bool.false_ne_true
  | fail => rw [apply_fail, Regex.language_fail, Tree.language_fail, map_zero]
  | closure t ih =>
      obtain ⟨-, inside⟩ := Tree.forall_node_closure.mp rational
      rw [apply_closure, Regex.language_star, Tree.language_closure, coded_kstar, ih inside]
  | negation t => exact absurd (rational _ .root) Bool.false_ne_true
  | sequence t u iht ihu =>
      obtain ⟨-, left, right⟩ := Tree.forall_node_sequence.mp rational
      rw [apply_sequence, Regex.language_andThen, Tree.language_sequence, map_mul, iht left, ihu right]
  | join op members ih =>
      cases op with
      | and => exact absurd (rational _ .root) Bool.false_ne_true
      | or =>
          obtain ⟨-, inside⟩ := Tree.forall_node_join.mp rational
          have image {t : Tree σ} (mem : t ∈ members) (x : List τ) :
              x ∈ ((plain code).apply t).language ↔ x ∈ coded code t.language := by
            rw [ih t mem (inside t mem)]
          ext x
          rw [apply_join, Regex.mem_language_combine, Connective.holds_map]
          constructor
          · rintro ⟨t, mem, ht⟩
            obtain ⟨w, hw, rfl⟩ := (image mem x).mp ht
            exact ⟨w, Tree.mem_language_join.mpr ⟨t, mem, hw⟩, rfl⟩
          · rintro ⟨w, hw, rfl⟩
            obtain ⟨t, mem, ht⟩ := Tree.mem_language_join.mp hw
            exact ⟨t, mem, (image mem _).mpr ⟨w, ht, rfl⟩⟩

end Substitution

/-! ## Regexes -/

namespace Regex

theorem accepts_map {f : σ → τ} (injective : Function.Injective f) (r : Regex σ) (w : List σ) :
    (r.substitute fun c => [f c]).accepts (w.map f) = r.accepts w := by
  rw [Bool.eq_iff_iff, accepts_iff, accepts_iff, List.map_eq_flatMap]
  exact (Substitution.confined_plain f).mem_language (aligned_singletons injective) r.canonical w

theorem accepts_image (code : σ → List τ) {r : Regex σ}
    (rational : ∀ n, Tree.Node n r.tree → n.isRational = true) (x : List τ) :
    (r.substitute code).accepts x = true ↔ ∃ w, r.accepts w = true ∧ w.flatMap code = x := by
  have language : (r.substitute code).language = coded code r.language :=
    Substitution.language_plain code rational
  simp only [accepts_iff, language, mem_coded]

/-- When every symbol becomes a symbol of its own, a regex takes what a word becomes for what it
took the word for. A rational regex matches what its matches become and nothing else, also when the
words of symbols are empty or shared. -/
theorem accepts_substitute :
    (∀ f : σ → τ, Function.Injective f → ∀ (r : Regex σ) (w : List σ),
      (r.substitute fun c => [f c]).accepts (w.map f) = r.accepts w) ∧
    ∀ (code : σ → List τ) (r : Regex σ), (∀ n, Tree.Node n r.tree → n.isRational = true) →
      ∀ x, (r.substitute code).accepts x = true ↔
        ∃ w, r.accepts w = true ∧ w.flatMap code = x :=
  ⟨fun _ injective r w => accepts_map injective r w,
    fun code _ rational x => accepts_image code rational x⟩

theorem accepts_substitute_vanishing :
    let r : Regex UInt8 := (single 0).complement.and any
    let s : Regex Char := ((single 'a').andThen (single '-')).star.andThen (single 'b').star
    let code : Char → List UInt8 := fun c => if c = '-' then [] else [1]
    Function.Injective Char.ofUInt8 ∧ (∀ n, Tree.Node n s.tree → n.isRational = true) ∧
      (r.substitute fun b => [Char.ofUInt8 b]).accepts ([7].map Char.ofUInt8) = r.accepts [7] ∧
      ((s.substitute code).accepts [1, 1] = true ↔
        ∃ w, s.accepts w = true ∧ w.flatMap code = [1, 1]) := by
  intro r s code
  have injective : Function.Injective Char.ofUInt8 := fun b c same =>
    UInt8.toUInt32_inj.mp (congrArg Char.val same)
  have rational : ∀ n, Tree.Node n s.tree → n.isRational = true := by decide
  exact ⟨injective, rational, accepts_substitute.1 Char.ofUInt8 injective r [7],
    accepts_substitute.2 code s rational [1, 1]⟩

end Regex

end Residual
