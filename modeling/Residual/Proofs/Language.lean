import Mathlib.Computability.MyhillNerode
import Residual.Regex.Basic

/-!
# The words that a regex matches

`Tree.language` reads a tree as a set of words, node by node. The operations that build trees
rewrite what they are given, and the lemmas here say that no rewriting changes the language:

* **operations** — `language_star`, `language_complement`, `language_andThen` and
  `mem_language_combine`;
* **the cached flag** — `Canonical.nullable_iff`: a canonical tree is marked as matching the empty
  word exactly when it does;
* **derivatives** — `Canonical.mem_language_derivative`: the derivative by `c` matches the rests of
  the words that start with `c`;
* **matching** — `Regex.accepts_iff`: taking derivatives decides membership.
-/

namespace Residual

open Computability

variable {σ : Type} [Symbol σ]

/-! ## Connectives as quantifiers -/

namespace Connective

variable {α β : Type}

/-- Some item of a list has a property, or every item has it. -/
def Holds (op : Connective) (p : α → Prop) (as : List α) : Prop :=
  match op with
  | or => ∃ a ∈ as, p a
  | and => ∀ a ∈ as, p a

theorem holds_or {p : α → Prop} {as : List α} : or.Holds p as ↔ ∃ a ∈ as, p a := Iff.rfl

theorem holds_and {p : α → Prop} {as : List α} : and.Holds p as ↔ ∀ a ∈ as, p a := Iff.rfl

theorem holds_congr {op : Connective} {p q : α → Prop} {as : List α}
    (h : ∀ a ∈ as, p a ↔ q a) : op.Holds p as ↔ op.Holds q as := by
  cases op with
  | or => exact exists_congr fun a => and_congr_right fun member => h a member
  | and => exact forall_congr' fun a => forall_congr' fun member => h a member

theorem holds_congr_mem {op : Connective} {p : α → Prop} {as bs : List α}
    (h : ∀ a, a ∈ as ↔ a ∈ bs) : op.Holds p as ↔ op.Holds p bs := by
  cases op <;> simp [holds_or, holds_and, h]

@[simp] theorem holds_map (op : Connective) (p : β → Prop) (f : α → β) (as : List α) :
    op.Holds p (as.map f) ↔ op.Holds (fun a => p (f a)) as := by
  cases op <;> simp [holds_or, holds_and]

@[simp] theorem holds_singleton (op : Connective) (p : α → Prop) (a : α) :
    op.Holds p [a] ↔ p a := by
  cases op <;> simp [holds_or, holds_and]

theorem holds_flatMap (op : Connective) (p : β → Prop) (f : α → List β) (as : List α) :
    op.Holds p (as.flatMap f) ↔ op.Holds (fun a => op.Holds p (f a)) as := by
  cases op with
  | or =>
      simp only [holds_or, List.mem_flatMap]
      constructor
      · rintro ⟨b, ⟨a, ha, hb⟩, holds⟩
        exact ⟨a, ha, b, hb, holds⟩
      · rintro ⟨a, ha, b, hb, holds⟩
        exact ⟨b, ⟨a, ha, hb⟩, holds⟩
  | and =>
      simp only [holds_and, List.mem_flatMap]
      constructor
      · intro h a ha b hb
        exact h b ⟨a, ha, hb⟩
      · rintro h b ⟨a, ha, hb⟩
        exact h a ha b hb

/-- What a connective makes of truth values is what it says of the list of them. -/
theorem truth_eq_true (op : Connective) (values : List Bool) :
    op.truth values = true ↔ op.Holds (· = true) values := by
  cases op <;> simp [truth, holds_or, holds_and]

end Connective

/-! ## First symbols of products and closures -/

section FirstSymbol

variable {α : Type}

/-- A word of a product starts inside its first part, unless that part is empty. -/
theorem cons_mem_mul {L M : Language α} {c : α} {w : List α} :
    c :: w ∈ L * M ↔ w ∈ L.leftQuotient [c] * M ∨ [] ∈ L ∧ c :: w ∈ M := by
  simp only [Language.mem_mul, Language.mem_leftQuotient, List.singleton_append]
  constructor
  · rintro ⟨x, hx, y, hy, split⟩
    cases x with
    | nil =>
        rw [List.nil_append] at split
        exact .inr ⟨hx, split ▸ hy⟩
    | cons d x =>
        rw [List.cons_append, List.cons.injEq] at split
        obtain ⟨rfl, rfl⟩ := split
        exact .inl ⟨x, hx, y, hy, rfl⟩
  · rintro (⟨x, hx, y, hy, rfl⟩ | ⟨hx, hy⟩)
    · exact ⟨c :: x, hx, y, hy, rfl⟩
    · exact ⟨[], hx, c :: w, hy, rfl⟩

/-- A word of a closure starts inside the first of its parts that is not empty. -/
theorem cons_mem_kstar {L : Language α} {c : α} {w : List α} :
    c :: w ∈ L∗ ↔ w ∈ L.leftQuotient [c] * L∗ := by
  constructor
  · intro h
    obtain ⟨parts, eq, hparts⟩ := Language.mem_kstar_iff_exists_nonempty.mp h
    cases parts with
    | nil => simp at eq
    | cons x parts =>
        obtain ⟨hx, nonempty⟩ := hparts x (List.mem_cons_self ..)
        cases x with
        | nil => exact absurd rfl nonempty
        | cons d x =>
            rw [List.flatten_cons, List.cons_append, List.cons.injEq] at eq
            obtain ⟨rfl, rfl⟩ := eq
            have rest : parts.flatten ∈ L∗ :=
              Language.join_mem_kstar fun y hy => (hparts y (List.mem_cons_of_mem _ hy)).1
            exact Language.append_mem_mul hx rest
  · intro h
    rw [← Language.one_add_self_mul_kstar_eq_kstar, Language.mem_add, cons_mem_mul]
    exact .inr (.inl h)

end FirstSymbol

namespace Tree

/-! ## Languages of trees -/

mutual

/-- The words that a tree matches. -/
def language (t : Tree σ) : Language σ :=
  match t with
  | single c => {[c]}
  | block cs => {cs}
  | any => {w | ∃ c, w = [c]}
  | fail => 0
  | closure t => (language t)∗
  | negation t => (language t)ᶜ
  | sequence t u => language t * language u
  | join op members => {w | op.Holds (w ∈ ·) (languages members)}

/-- The languages of the trees of a list. -/
def languages (ts : List (Tree σ)) : List (Language σ) :=
  match ts with
  | [] => []
  | t :: ts => language t :: languages ts

end

theorem languages_eq_map (ts : List (Tree σ)) : languages ts = ts.map language := by
  induction ts with
  | nil => rfl
  | cons t ts ih => exact congrArg (t.language :: ·) ih

@[simp] theorem mem_language_single {c : σ} {w : List σ} : w ∈ (single c).language ↔ w = [c] :=
  Iff.rfl

@[simp] theorem mem_language_block {cs w : List σ} : w ∈ (block cs).language ↔ w = cs := Iff.rfl

@[simp] theorem mem_language_any {w : List σ} : w ∈ any.language ↔ ∃ c, w = [c] := Iff.rfl

@[simp] theorem language_fail : (fail : Tree σ).language = 0 := rfl

@[simp] theorem language_closure (t : Tree σ) : (closure t).language = t.language∗ := rfl

@[simp] theorem language_negation (t : Tree σ) : (negation t).language = t.languageᶜ := rfl

@[simp] theorem language_sequence (t u : Tree σ) :
    (sequence t u).language = t.language * u.language := rfl

@[simp] theorem mem_language_join {op : Connective} {members : List (Tree σ)} {w : List σ} :
    w ∈ (join op members).language ↔ op.Holds (w ∈ ·.language) members := by
  show op.Holds (w ∈ ·) (languages members) ↔ _
  rw [languages_eq_map]
  exact op.holds_map (w ∈ ·) language members

@[simp] theorem language_epsilon : (epsilon : Tree σ).language = 1 := by
  rw [epsilon, language_closure, language_fail, kstar_zero]

@[simp] theorem language_success : (success : Tree σ).language = ⊤ := by
  rw [success, language_negation, language_fail]
  exact compl_bot

/-! ## Languages of the operations -/

theorem mem_language_word {cs w : List σ} : w ∈ (word cs).language ↔ w = cs := by
  cases cs with
  | nil => simp [word]
  | cons c cs => exact mem_language_block

theorem language_star (t : Tree σ) : t.star.language = t.language∗ := by
  unfold star
  split
  · rw [language_closure, kstar_idem]
  · rw [language_closure]

theorem language_complement (t : Tree σ) : t.complement.language = t.languageᶜ := by
  unfold complement
  split
  · rw [language_negation, compl_compl]
  · rw [language_negation]

theorem language_pair (t u : Tree σ) : (pair t u).language = t.language * u.language := by
  unfold pair
  split
  · next absorbed =>
    rcases (Bool.or_eq_true _ _).mp absorbed with h | h <;>
      simp [isFail_iff.mp h]
  · split
    · next h => simp [isEpsilon_iff.mp h]
    · split
      · next h => simp [isEpsilon_iff.mp h]
      · rw [language_sequence]

theorem language_andThen (t u : Tree σ) : (t.andThen u).language = t.language * u.language := by
  induction t using ind generalizing u with
  | sequence t t' ih ih' =>
      rw [sequence_andThen, ih, ih', language_sequence, mul_assoc]
  | _ => rw [andThen_of_not_sequence rfl, language_pair]

/-! A join of trees matches what the connective makes of the trees' languages. -/

theorem mem_language_unit {op : Connective} {w : List σ} :
    w ∈ (op.unit : Tree σ).language ↔ op.Holds (w ∈ ·.language) ([] : List (Tree σ)) := by
  cases op with
  | or => simp [Connective.unit, Connective.Holds]
  | and => simp [Connective.unit, Connective.Holds]; trivial

/-- The zero decides a join that it is a member of. -/
theorem mem_language_zero {op : Connective} {ts : List (Tree σ)} (h : op.zero ∈ ts) {w : List σ} :
    w ∈ (op.zero : Tree σ).language ↔ op.Holds (w ∈ ·.language) ts := by
  cases op with
  | or =>
      have all : w ∈ (success : Tree σ).language := by rw [language_success]; trivial
      constructor
      · intro _
        exact ⟨_, h, all⟩
      · intro _
        exact all
  | and =>
      have none : w ∉ (fail : Tree σ).language := by simp
      constructor
      · intro member
        exact absurd member none
      · intro holds
        exact holds _ h

theorem mem_language_contribution {op : Connective} {t : Tree σ} {w : List σ} :
    op.Holds (w ∈ ·.language) (contribution op t) ↔ w ∈ t.language := by
  cases h : t.isJoin op with
  | false =>
      rw [contribution_of_flat h]
      split
      · next unit => rw [unit, mem_language_unit]
      · exact op.holds_singleton _ _
  | true =>
      cases t with
      | join op' members =>
          obtain rfl : op = op' := by simpa [isJoin] using h
          rw [contribution_join, mem_language_join]
      | _ => simp [isJoin] at h

theorem mem_language_ofMembers {op : Connective} {ts : List (Tree σ)} {w : List σ} :
    w ∈ (ofMembers op ts).language ↔ op.Holds (w ∈ ·.language) ts := by
  rcases ts with _ | ⟨t, _ | ⟨u, ts⟩⟩
  · exact mem_language_unit
  · exact (op.holds_singleton (w ∈ ·.language) t).symm
  · exact mem_language_join

/-- Flattening, sorting, removing repetitions and absorbing leave the language of a join alone. -/
theorem mem_language_combine {op : Connective} {ts : List (Tree σ)} {w : List σ} :
    w ∈ (combine op ts).language ↔ op.Holds (w ∈ ·.language) ts := by
  by_cases hz : op.zero ∈ ts
  · rw [combine_of_zero_mem hz, mem_language_zero hz]
  · rw [combine_of_zero_not_mem hz, mem_language_ofMembers,
      Connective.holds_congr_mem fun _ => mem_normalize, contributions, Connective.holds_flatMap]
    exact Connective.holds_congr fun t _ => mem_language_contribution

/-! ## The empty word -/

theorem Canonical.nullable_iff {t : Tree σ} (ht : t.Canonical) :
    t.nullable = true ↔ [] ∈ t.language := by
  induction ht with
  | single c => simp
  | block nonempty => simpa using nonempty.symm
  | any => simp
  | fail => simp
  | @closure t =>
      rw [nullable_closure, language_closure]
      constructor
      · intro _
        exact Language.nil_mem_kstar _
      · intro _
        rfl
  | @negation t _ _ ih =>
      rw [nullable_negation, language_negation, Bool.not_eq_true', ← Bool.not_eq_true, ih]
      rfl
  | @sequence t u _ _ _ _ _ iht ihu =>
      rw [nullable_sequence, language_sequence, Bool.and_eq_true, iht, ihu, Language.mem_mul]
      constructor
      · rintro ⟨left, right⟩
        exact ⟨[], left, [], right, rfl⟩
      · rintro ⟨x, left, y, right, split⟩
        obtain ⟨rfl, rfl⟩ := List.append_eq_nil_iff.mp split
        exact ⟨left, right⟩
  | @join op members _ _ _ _ ih =>
      rw [nullable_join, Connective.truth_eq_true, Connective.holds_map, mem_language_join]
      exact Connective.holds_congr ih

/-! ## Derivatives -/

theorem mem_language_derivative_block {cs : List σ} (nonempty : cs ≠ []) (c : σ) (w : List σ) :
    w ∈ ((block cs).derivative c).language ↔ c :: w ∈ (block cs).language := by
  cases cs with
  | nil => exact absurd rfl nonempty
  | cons d ds =>
      rw [derivative_block_cons, mem_language_block]
      split
      · next eq => simp [mem_language_word, eq]
      · next ne => simpa using fun eq : c = d => absurd eq.symm ne

/-- The derivative of a canonical tree matches the rests of the words that start with its symbol. -/
theorem Canonical.mem_language_derivative {t : Tree σ} (ht : t.Canonical) (c : σ) (w : List σ) :
    w ∈ (t.derivative c).language ↔ c :: w ∈ t.language := by
  induction ht generalizing w with
  | single d =>
      rw [derivative_single]
      split
      · next eq => simp [eq]
      · next ne => simpa using fun eq : c = d => absurd eq.symm ne
  | block nonempty => exact mem_language_derivative_block nonempty c w
  | any => simp
  | fail => simp
  | @closure t _ _ ih =>
      have step : (t.derivative c).language = t.language.leftQuotient [c] := Language.ext ih
      rw [derivative_closure, language_andThen, language_closure, cons_mem_kstar, step]
  | @negation t _ _ ih =>
      rw [derivative_negation, language_complement, language_negation]
      exact not_congr (ih w)
  | @sequence t u left _ _ _ _ iht ihu =>
      have step : (t.derivative c).language = t.language.leftQuotient [c] := Language.ext iht
      rw [derivative_sequence, language_sequence, cons_mem_mul, ← left.nullable_iff]
      split
      · next nullable =>
        rw [mem_language_combine]
        simp [Connective.Holds, language_andThen, step, ihu, nullable]
      · next nullable =>
        simp [language_andThen, step, nullable]
  | @join op members _ _ _ _ ih =>
      rw [derivative_join, mem_language_combine, Connective.holds_map, mem_language_join]
      exact Connective.holds_congr fun t member => ih t member w

end Tree

namespace Regex

/-! ## Languages of regexes -/

/-- The words that a regex matches. -/
def language (r : Regex σ) : Language σ :=
  r.tree.language

theorem nullable_iff (r : Regex σ) : r.nullable = true ↔ [] ∈ r.language :=
  r.canonical.nullable_iff

theorem mem_language_derivative (r : Regex σ) (c : σ) (w : List σ) :
    w ∈ (r.derivative c).language ↔ c :: w ∈ r.language :=
  r.canonical.mem_language_derivative c w

theorem language_of_isFail {r : Regex σ} (h : r.isFail = true) : r.language = 0 := by
  rw [language, Tree.isFail_iff.mp h, Tree.language_fail]

/-- Taking derivatives decides which words are matched, and stopping early is sound. -/
theorem accepts_iff (r : Regex σ) (w : List σ) : r.accepts w = true ↔ w ∈ r.language := by
  induction w generalizing r with
  | nil => exact r.nullable_iff
  | cons c w ih =>
      rw [accepts]
      split
      · next stuck => simp [language_of_isFail stuck]
      · rw [ih, mem_language_derivative]

/-- A regex matches a word when what is left of it after the word matches the empty word. -/
theorem accepts_eq_nullable_residual (r : Regex σ) (w : List σ) :
    r.accepts w = (r.residual w).nullable := by
  rw [Bool.eq_iff_iff, accepts_iff, nullable_iff]
  induction w generalizing r with
  | nil => rfl
  | cons c w ih =>
      rw [← mem_language_derivative, ih]
      rfl

/-! ## Languages of the operations on regexes -/

theorem mem_language_single {c : σ} {w : List σ} : w ∈ (single c).language ↔ w = [c] :=
  Tree.mem_language_single

theorem mem_language_word {cs w : List σ} : w ∈ (word cs).language ↔ w = cs :=
  Tree.mem_language_word

theorem mem_language_any {w : List σ} : w ∈ (any : Regex σ).language ↔ ∃ c, w = [c] :=
  Tree.mem_language_any

theorem language_fail : (fail : Regex σ).language = 0 :=
  Tree.language_fail

theorem language_epsilon : (epsilon : Regex σ).language = 1 :=
  Tree.language_epsilon

theorem language_success : (success : Regex σ).language = ⊤ :=
  Tree.language_success

theorem language_star (r : Regex σ) : r.star.language = r.language∗ :=
  r.tree.language_star

theorem language_complement (r : Regex σ) : r.complement.language = r.languageᶜ :=
  r.tree.language_complement

theorem language_andThen (r s : Regex σ) : (r.andThen s).language = r.language * s.language :=
  r.tree.language_andThen s.tree

theorem language_plus (r : Regex σ) : r.plus.language = r.language * r.language∗ := by
  rw [plus, language_andThen, language_star]

theorem language_concat (rs : List (Regex σ)) :
    (concat rs).language = (rs.map language).prod := by
  induction rs with
  | nil => exact language_epsilon
  | cons r rs ih =>
      rw [List.map_cons, List.prod_cons, ← ih]
      exact language_andThen r (concat rs)

theorem mem_language_combine {op : Connective} {rs : List (Regex σ)} {w : List σ} :
    w ∈ (combine op rs).language ↔ op.Holds (w ∈ ·.language) rs := by
  rw [language, combine, Tree.mem_language_combine, Connective.holds_map]
  rfl

theorem mem_language_alternation {rs : List (Regex σ)} {w : List σ} :
    w ∈ (alternation rs).language ↔ ∃ r ∈ rs, w ∈ r.language :=
  mem_language_combine

theorem mem_language_intersection {rs : List (Regex σ)} {w : List σ} :
    w ∈ (intersection rs).language ↔ ∀ r ∈ rs, w ∈ r.language :=
  mem_language_combine

theorem language_or (r s : Regex σ) : (r.or s).language = r.language + s.language := by
  apply Language.ext
  intro w
  rw [or, mem_language_alternation, Language.mem_add]
  simp

theorem language_and (r s : Regex σ) : (r.and s).language = r.language ⊓ s.language := by
  apply Language.ext
  intro w
  rw [and, mem_language_intersection]
  simp

theorem language_optional (r : Regex σ) : r.optional.language = r.language + 1 := by
  rw [optional, language_or, language_epsilon]

end Regex

end Residual
