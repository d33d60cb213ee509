import Residual.Proofs.Language

/-!
# Expressions

An `Expression` is a regular expression as it is written: one constructor for every way of building
a regex, none of which simplifies anything. It has two readings, and they agree:

* `Expression.regex` — the canonical regex that the operations on regexes build;
* `Expression.language` — the words that the expression describes, by the usual definitions.

`Expression.language_regex` says that simplifying on the way changes no language.
-/

namespace Residual

open Computability

/-- A regular expression over the symbols `σ` as it is written. -/
inductive Expression (σ : Type) where
  | single (c : σ)
  | word (cs : List σ)
  | any
  | fail
  | epsilon
  | success
  | star (e : Expression σ)
  | plus (e : Expression σ)
  | optional (e : Expression σ)
  | complement (e : Expression σ)
  | andThen (e f : Expression σ)
  | or (e f : Expression σ)
  | and (e f : Expression σ)
  | concat (es : List (Expression σ))
  | alternation (es : List (Expression σ))
  | intersection (es : List (Expression σ))
  | derivative (e : Expression σ) (c : σ)

namespace Expression

variable {σ : Type}

/-! ## The two readings -/

mutual

/-- The words that an expression describes. -/
def language (e : Expression σ) : Language σ :=
  match e with
  | single c => {[c]}
  | word cs => {cs}
  | any => {w | ∃ c, w = [c]}
  | fail => 0
  | epsilon => 1
  | success => ⊤
  | star e => (language e)∗
  | plus e => language e * (language e)∗
  | optional e => language e + 1
  | complement e => (language e)ᶜ
  | andThen e f => language e * language f
  | or e f => language e + language f
  | and e f => language e ⊓ language f
  | concat es => (languages es).prod
  | alternation es => {w | ∃ L ∈ languages es, w ∈ L}
  | intersection es => {w | ∀ L ∈ languages es, w ∈ L}
  | derivative e c => {w | c :: w ∈ language e}

/-- The languages of the expressions of a list. -/
def languages (es : List (Expression σ)) : List (Language σ) :=
  match es with
  | [] => []
  | e :: es => language e :: languages es

end

variable [Symbol σ]

mutual

/-- The regex that an expression builds. -/
def regex (e : Expression σ) : Regex σ :=
  match e with
  | single c => .single c
  | word cs => .word cs
  | any => .any
  | fail => .fail
  | epsilon => .epsilon
  | success => .success
  | star e => e.regex.star
  | plus e => e.regex.plus
  | optional e => e.regex.optional
  | complement e => e.regex.complement
  | andThen e f => e.regex.andThen f.regex
  | or e f => e.regex.or f.regex
  | and e f => e.regex.and f.regex
  | concat es => .concat (regexes es)
  | alternation es => .alternation (regexes es)
  | intersection es => .intersection (regexes es)
  | derivative e c => e.regex.derivative c

/-- The regexes of the expressions of a list. -/
def regexes (es : List (Expression σ)) : List (Regex σ) :=
  match es with
  | [] => []
  | e :: es => e.regex :: regexes es

end

/-! ## Agreement -/

mutual

/-- The regex that an expression builds matches the words that the expression describes. -/
theorem language_regex (e : Expression σ) : e.regex.language = e.language := by
  match e with
  | single c => exact Language.ext fun w => Regex.mem_language_single
  | word cs => exact Language.ext fun w => Regex.mem_language_word
  | any => exact Language.ext fun w => Regex.mem_language_any
  | fail => exact Regex.language_fail
  | epsilon => exact Regex.language_epsilon
  | success => exact Regex.language_success
  | star e => rw [regex, language, Regex.language_star, language_regex e]
  | plus e => rw [regex, language, Regex.language_plus, language_regex e]
  | optional e => rw [regex, language, Regex.language_optional, language_regex e]
  | complement e => rw [regex, language, Regex.language_complement, language_regex e]
  | andThen e f =>
      rw [regex, language, Regex.language_andThen, language_regex e, language_regex f]
  | or e f => rw [regex, language, Regex.language_or, language_regex e, language_regex f]
  | and e f => rw [regex, language, Regex.language_and, language_regex e, language_regex f]
  | concat es => rw [regex, language, Regex.language_concat, map_language_regexes es]
  | alternation es =>
      apply Language.ext
      intro w
      rw [regex, language, Regex.mem_language_alternation, ← map_language_regexes es]
      constructor
      · rintro ⟨r, hr, member⟩
        exact ⟨r.language, List.mem_map_of_mem hr, member⟩
      · rintro ⟨L, hL, member⟩
        obtain ⟨r, hr, rfl⟩ := List.mem_map.mp hL
        exact ⟨r, hr, member⟩
  | intersection es =>
      apply Language.ext
      intro w
      rw [regex, language, Regex.mem_language_intersection, ← map_language_regexes es]
      constructor
      · intro all L hL
        obtain ⟨r, hr, rfl⟩ := List.mem_map.mp hL
        exact all r hr
      · intro all r hr
        exact all r.language (List.mem_map_of_mem hr)
  | derivative e c =>
      apply Language.ext
      intro w
      rw [regex, language, Regex.mem_language_derivative, language_regex e]
      rfl

/-- The same, expression by expression. -/
theorem map_language_regexes (es : List (Expression σ)) :
    (regexes es).map Regex.language = languages es := by
  match es with
  | [] => rfl
  | e :: es => rw [regexes, languages, List.map_cons, language_regex e, map_language_regexes es]

end

/-- A regex accepts exactly the words that the expression it was built from describes, and it is
marked as matching the empty word exactly when the empty word is one of them. -/
theorem accepts_regex_iff (e : Expression σ) :
    (∀ w, e.regex.accepts w = true ↔ w ∈ e.language) ∧
      (e.regex.nullable = true ↔ [] ∈ e.language) := by
  constructor
  · intro w
    rw [Regex.accepts_iff, language_regex]
  · rw [Regex.nullable_iff, language_regex]

end Expression

end Residual
