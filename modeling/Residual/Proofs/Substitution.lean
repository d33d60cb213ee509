import Mathlib.Order.CompletePartialOrder
import Residual.Proofs.Language
import Residual.Regex.Substitution

/-!
# Regexes over code words

What a substitution makes of a regex when code words are pieces and complements are taken among the
sequences of pieces, as `Regex.substituteWithin` does it:

* **nothing but pieces** — `Substitution.Confined.language_le`: every match is a sequence of pieces;
* **nothing else changes** — `Substitution.Confined.mem_language`: when a coded word can be cut into
  pieces in one way only, the coded words that match are those of the words that matched before.

The second rests on `Aligned.cut`. A product or a closure may cut a coded word anywhere; as both
sides of the cut are sequences of pieces, it was made between two code words.
-/

namespace Residual

open Computability

/-! ## Coded words -/

section Codes

variable {α β : Type} {code : α → List β} {piece : Language β}

theorem language_le {L M : Language α} (h : ∀ x ∈ L, x ∈ M) : L ≤ M :=
  h

theorem map_code_mem (covers : ∀ c, code c ∈ piece) (w : List α) :
    ∀ x ∈ w.map code, x ∈ piece :=
  List.forall_mem_map.mpr fun c _ => covers c

/-- Coded words are sequences of pieces if code words are pieces. -/
theorem flatMap_mem_kstar (covers : ∀ c, code c ∈ piece) (w : List α) :
    w.flatMap code ∈ piece∗ := by
  rw [List.flatMap_def]
  exact Language.join_mem_kstar (map_code_mem covers w)

/-- Code words are different pieces, and coded words can be cut into pieces in one way only. -/
structure Aligned (code : α → List β) (piece : Language β) : Prop where
  covers : ∀ c, code c ∈ piece
  unique : ∀ (w : List α) (parts : List (List β)), (∀ x ∈ parts, x ∈ piece) →
    parts.flatten = w.flatMap code → parts = w.map code
  injective : Function.Injective code

namespace Aligned

/-- A coded word is cut into pieces by cutting it into its code words, and in no other way. -/
theorem pieces_iff (aligned : Aligned code piece) (w : List α) (parts : List (List β)) :
    (∀ x ∈ parts, x ∈ piece) ∧ parts.flatten = w.flatMap code ↔ parts = w.map code := by
  constructor
  · rintro ⟨pieces, whole⟩
    exact aligned.unique w parts pieces whole
  · rintro rfl
    exact ⟨map_code_mem aligned.covers w, List.flatMap_def.symm⟩

theorem flatMap_injective (aligned : Aligned code piece) {v w : List α}
    (same : v.flatMap code = w.flatMap code) : v = w := by
  have equal : v.map code = w.map code := by
    apply aligned.unique w _ (map_code_mem aligned.covers v)
    rw [← List.flatMap_def, same]
  exact List.map_injective_iff.mpr aligned.injective equal

/-- A cut of a coded word into sequences of pieces is a cut of the word. -/
theorem cut (aligned : Aligned code piece) {w : List α} {x y : List β} (hx : x ∈ piece∗)
    (hy : y ∈ piece∗) (whole : x ++ y = w.flatMap code) :
    ∃ u v, w = u ++ v ∧ x = u.flatMap code ∧ y = v.flatMap code := by
  obtain ⟨xs, rfl, hxs⟩ := Language.mem_kstar.mp hx
  obtain ⟨ys, rfl, hys⟩ := Language.mem_kstar.mp hy
  have parts : xs ++ ys = w.map code := by
    apply aligned.unique w
    · intro z hz
      rcases List.mem_append.mp hz with hz | hz
      · exact hxs z hz
      · exact hys z hz
    · rw [List.flatten_append, whole]
  obtain ⟨u, v, rfl, rfl, rfl⟩ := List.map_eq_append_iff.mp parts.symm
  exact ⟨u, v, rfl, List.flatMap_def.symm, List.flatMap_def.symm⟩

theorem mem_piece_iff (aligned : Aligned code piece) (w : List α) :
    w.flatMap code ∈ piece ↔ ∃ c, w = [c] := by
  constructor
  · intro whole
    have parts : [w.flatMap code] = w.map code := by
      apply aligned.unique w
      · intro x hx
        rwa [List.mem_singleton.mp hx]
      · exact List.flatten_singleton
    have one : w.length = 1 := by
      have := congrArg List.length parts
      simpa using this.symm
    exact List.length_eq_one_iff.mp one
  · rintro ⟨c, rfl⟩
    rw [List.flatMap_singleton]
    exact aligned.covers c

/-! Operations on languages agree with their counterparts on coded words. -/

variable {L L' : Language α} {M M' : Language β}

theorem mem_mul_iff (aligned : Aligned code piece) (hM : M ≤ piece∗) (hM' : M' ≤ piece∗)
    (h : ∀ w, w.flatMap code ∈ M ↔ w ∈ L) (h' : ∀ w, w.flatMap code ∈ M' ↔ w ∈ L')
    (w : List α) : w.flatMap code ∈ M * M' ↔ w ∈ L * L' := by
  constructor
  · rintro ⟨x, hx, y, hy, whole⟩
    obtain ⟨u, v, rfl, rfl, rfl⟩ := aligned.cut (hM hx) (hM' hy) whole
    exact Language.append_mem_mul ((h u).mp hx) ((h' v).mp hy)
  · rintro ⟨u, hu, v, hv, rfl⟩
    show (u ++ v).flatMap code ∈ M * M'
    rw [List.flatMap_append]
    exact Language.append_mem_mul ((h u).mpr hu) ((h' v).mpr hv)

theorem mem_kstar_iff (aligned : Aligned code piece) (hM : M ≤ piece∗)
    (h : ∀ w, w.flatMap code ∈ M ↔ w ∈ L) (w : List α) :
    w.flatMap code ∈ M∗ ↔ w ∈ L∗ := by
  constructor
  · intro member
    obtain ⟨parts, whole, hparts⟩ := Language.mem_kstar.mp member
    -- the parts are cut off one after another
    induction parts generalizing w with
    | nil =>
        have empty : w.flatMap code = ([] : List α).flatMap code := whole
        rw [aligned.flatMap_injective empty]
        exact Language.nil_mem_kstar L
    | cons x parts ih =>
        have hx : x ∈ M := hparts x (List.mem_cons_self ..)
        have hrest : ∀ y ∈ parts, y ∈ M := fun y hy => hparts y (List.mem_cons_of_mem _ hy)
        have rest : parts.flatten ∈ M∗ := Language.join_mem_kstar hrest
        have pieces : parts.flatten ∈ piece∗ := by
          have inside := kstar_mono hM rest
          rwa [kstar_idem] at inside
        obtain ⟨u, v, rfl, rfl, tail⟩ := aligned.cut (hM hx) pieces whole.symm
        have hv : v ∈ L∗ := ih v (tail ▸ rest) tail.symm hrest
        rw [← Language.one_add_self_mul_kstar_eq_kstar]
        exact .inr (Language.append_mem_mul ((h u).mp hx) hv)
  · intro member
    obtain ⟨parts, rfl, hparts⟩ := Language.mem_kstar.mp member
    rw [← List.flatMap_id, List.flatMap_assoc, List.flatMap_def]
    apply Language.join_mem_kstar
    intro x hx
    obtain ⟨u, hu, rfl⟩ := List.mem_map.mp hx
    exact (h u).mpr (hparts u hu)

end Aligned

end Codes

/-! ## Substitution -/

section Substitution

variable {σ τ : Type} [Symbol σ] [Symbol τ]

namespace Substitution

/-- The substitution keeps to sequences of pieces: code words are pieces, a piece stands for any
symbol, and complements are taken among the sequences of pieces. -/
structure Confined (f : Substitution σ τ) (piece : Language τ) : Prop where
  covers : ∀ c, f.code c ∈ piece
  anyone : f.anyone.language = piece
  confine : ∀ r, (f.confine r).language = r.language ⊓ piece∗

namespace Confined

variable {f : Substitution σ τ} {piece : Language τ}

/-- Every match of the new regex is a sequence of pieces. -/
theorem language_le (confined : f.Confined piece) {t : Tree σ} (ht : t.Canonical) :
    (f.apply t).language ≤ piece∗ := by
  induction ht with
  | single c =>
      apply Residual.language_le
      intro x hx
      rw [apply_single, Regex.mem_language_word] at hx
      have word : f.code c ∈ piece∗ := by
        rw [← List.flatMap_singleton f.code c]
        exact flatMap_mem_kstar confined.covers [c]
      rw [hx]
      exact word
  | @block cs _ =>
      apply Residual.language_le
      intro x hx
      rw [apply_block, Regex.mem_language_word] at hx
      rw [hx]
      exact flatMap_mem_kstar confined.covers cs
  | any =>
      rw [apply_any, confined.anyone]
      exact le_kstar
  | fail =>
      rw [apply_fail, Regex.language_fail]
      exact bot_le
  | closure _ _ ih =>
      rw [apply_closure, Regex.language_star]
      exact (kstar_mono ih).trans_eq (kstar_idem _)
  | negation _ _ ih =>
      rw [apply_negation, confined.confine]
      exact inf_le_right
  | sequence _ _ _ _ _ ih ih' =>
      rw [apply_sequence, Regex.language_andThen]
      exact (mul_le_mul' ih ih').trans_eq (kstar_mul_kstar _)
  | @join op members _ _ _ several ih =>
      apply Residual.language_le
      intro x hx
      rw [apply_join, Regex.mem_language_combine, Connective.holds_map] at hx
      -- a canonical join has a member, and what it matches consists of pieces
      cases op with
      | or =>
          obtain ⟨t, member, ht⟩ := hx
          exact ih t member ht
      | and =>
          have nonempty : 0 < members.length := by omega
          obtain ⟨t, member⟩ := List.exists_mem_of_length_pos nonempty
          exact ih t member (hx t member)

/-- A coded word matches the new regex when the word matches the old one. -/
theorem mem_language (confined : f.Confined piece) (aligned : Aligned f.code piece) {t : Tree σ}
    (ht : t.Canonical) (w : List σ) :
    w.flatMap f.code ∈ (f.apply t).language ↔ w ∈ t.language := by
  induction ht generalizing w with
  | single c =>
      rw [apply_single, Regex.mem_language_word, Tree.mem_language_single]
      have word : f.code c = [c].flatMap f.code := (List.flatMap_singleton f.code c).symm
      constructor
      · intro same
        exact aligned.flatMap_injective (same.trans word)
      · rintro rfl
        exact word.symm
  | block _ =>
      rw [apply_block, Regex.mem_language_word, Tree.mem_language_block]
      constructor
      · intro same
        exact aligned.flatMap_injective same
      · rintro rfl
        rfl
  | any =>
      rw [apply_any, confined.anyone, Tree.mem_language_any]
      exact aligned.mem_piece_iff w
  | fail =>
      rw [apply_fail, Regex.language_fail, Tree.language_fail]
      exact Iff.rfl
  | closure canonical _ ih =>
      rw [apply_closure, Regex.language_star, Tree.language_closure]
      exact aligned.mem_kstar_iff (confined.language_le canonical) ih w
  | negation _ _ ih =>
      rw [apply_negation, confined.confine, Regex.language_complement, Tree.language_negation]
      -- among the sequences of pieces the complement is the old one, and coded words are such
      have pieces := flatMap_mem_kstar aligned.covers w
      constructor
      · rintro ⟨outside, -⟩ inside
        exact outside ((ih w).mpr inside)
      · intro outside
        refine ⟨?_, pieces⟩
        intro inside
        exact outside ((ih w).mp inside)
  | sequence left right _ _ _ ih ih' =>
      rw [apply_sequence, Regex.language_andThen, Tree.language_sequence]
      exact aligned.mem_mul_iff (confined.language_le left) (confined.language_le right) ih ih' w
  | join _ _ _ _ ih =>
      rw [apply_join, Regex.mem_language_combine, Connective.holds_map,
        Tree.mem_language_join]
      exact Connective.holds_congr fun t member => ih t member w

end Confined

/-- The substitution that keeps to sequences of pieces. -/
def within (code : σ → List τ) (piece : Regex τ) : Substitution σ τ :=
  ⟨code, piece, fun s => s.and piece.star⟩

theorem confined_within {code : σ → List τ} {piece : Regex τ}
    (covers : ∀ c, code c ∈ piece.language) : (within code piece).Confined piece.language where
  covers := covers
  anyone := rfl
  confine r := by
    show (r.and piece.star).language = _
    rw [Regex.language_and, Regex.language_star]

end Substitution

namespace Regex

variable {code : σ → List τ} {piece : Regex τ}

theorem language_substituteWithin_le (covers : ∀ c, code c ∈ piece.language) (r : Regex σ) :
    (r.substituteWithin code piece).language ≤ piece.language∗ :=
  (Substitution.confined_within covers).language_le r.canonical

theorem mem_language_substituteWithin (aligned : Aligned code piece.language) (r : Regex σ)
    (w : List σ) : w.flatMap code ∈ (r.substituteWithin code piece).language ↔ w ∈ r.language :=
  (Substitution.confined_within aligned.covers).mem_language aligned r.canonical w

end Regex

end Substitution

end Residual
