import Residual.Proofs.Encoding

/-!
# Matching coded words

What `Regex.substituteWithin` promises, in terms of what regexes accept. A code that the pieces
cover keeps matches among the sequences of pieces; a code whose words can be told apart by cutting
into pieces changes nothing else.
-/

namespace Residual

variable {σ τ : Type} [Symbol σ] [Symbol τ]

omit [Symbol σ] in
/-- Cutting coded words into what a regex accepts tells the code words apart. -/
theorem aligned_of_accepts {code : σ → List τ} {piece : Regex τ}
    (covers : ∀ c, piece.accepts (code c) = true) (injective : Function.Injective code)
    (unique : ∀ (w : List σ) (parts : List (List τ)), (∀ x ∈ parts, piece.accepts x = true) →
      parts.flatten = w.flatMap code → parts = w.map code) :
    Aligned code piece.language where
  covers c := (piece.accepts_iff _).mp (covers c)
  unique w parts hparts whole :=
    unique w parts (fun x hx => (piece.accepts_iff x).mpr (hparts x hx)) whole
  injective := injective

/-- Substitution into a code whose words are pieces: every match consists of pieces, and if coded
words can be cut into pieces in one way only, exactly those match whose words matched before. -/
theorem accepts_substituteWithin {code : σ → List τ} {piece : Regex τ}
    (covers : ∀ c, piece.accepts (code c) = true) :
    (∀ (r : Regex σ) (u : List τ), (r.substituteWithin code piece).accepts u = true →
      piece.star.accepts u = true) ∧
    (Function.Injective code →
      (∀ (w : List σ) (parts : List (List τ)), (∀ x ∈ parts, piece.accepts x = true) →
        parts.flatten = w.flatMap code → parts = w.map code) →
      ∀ (r : Regex σ) (w : List σ),
        (r.substituteWithin code piece).accepts (w.flatMap code) = r.accepts w) := by
  constructor
  · intro r u matched
    have pieces : ∀ c, code c ∈ piece.language := fun c => (piece.accepts_iff _).mp (covers c)
    rw [Regex.accepts_iff] at matched ⊢
    rw [Regex.language_star]
    exact Regex.language_substituteWithin_le pieces r matched
  · intro injective unique r w
    have aligned := aligned_of_accepts covers injective unique
    rw [Bool.eq_iff_iff, Regex.accepts_iff, Regex.accepts_iff]
    exact Regex.mem_language_substituteWithin aligned r w

/-- Two words that are not empty cannot be cut out of one character, though they can be cut out of
its two bytes. -/
theorem accepts_substituteWithin_utf8 :
    (∀ c, Encoding.utf8.piece.accepts (Encoding.utf8.encodeChar c) = true) ∧
    Function.Injective Encoding.utf8.encodeChar ∧
    (∀ (w : List Char) (parts : List (List UInt8)),
      (∀ x ∈ parts, Encoding.utf8.piece.accepts x = true) →
      parts.flatten = w.flatMap Encoding.utf8.encodeChar →
      parts = w.map Encoding.utf8.encodeChar) ∧
    ((Regex.epsilon.complement.andThen Regex.epsilon.complement).substituteWithin
      Encoding.utf8.encodeChar Encoding.utf8.piece).accepts [0xC3, 0xA9] = false := by
  have aligned := Encoding.utf8.aligned
  have covers : ∀ c, Encoding.utf8.piece.accepts (Encoding.utf8.encodeChar c) = true := fun c =>
    (Regex.accepts_iff _ _).mpr (aligned.covers c)
  have unique : ∀ (w : List Char) (parts : List (List UInt8)),
      (∀ x ∈ parts, Encoding.utf8.piece.accepts x = true) →
      parts.flatten = w.flatMap Encoding.utf8.encodeChar →
      parts = w.map Encoding.utf8.encodeChar := fun w parts hparts whole =>
    aligned.unique w parts (fun x hx => (Regex.accepts_iff _ x).mp (hparts x hx)) whole
  refine ⟨covers, aligned.injective, unique, ?_⟩
  have same := (accepts_substituteWithin covers).2 aligned.injective unique
    (Regex.epsilon.complement.andThen Regex.epsilon.complement) ['é']
  have bytes : ['é'].flatMap Encoding.utf8.encodeChar = [0xC3, 0xA9] := by decide
  rw [bytes] at same
  rw [same, Bool.eq_false_iff, ne_eq, Regex.accepts_iff, Regex.language_andThen,
    Regex.language_complement, Regex.language_epsilon]
  rintro ⟨x, hx, y, hy, whole⟩
  have x_pos : 0 < x.length := List.length_pos_iff.mpr hx
  have y_pos : 0 < y.length := List.length_pos_iff.mpr hy
  have one : x.length + y.length = 1 := by
    have := congrArg List.length whole
    simpa using this
  omega

end Residual
