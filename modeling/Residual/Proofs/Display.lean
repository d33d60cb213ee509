import Residual.Proofs.Framing
import Residual.Proofs.Language
import Residual.Proofs.Legible
import Residual.Regex.Display

/-!
# What the text of a regex says

The text of a regex is read from left to right, one token at a time, and what has been read is kept
as languages: those of complete members and factors, for every parenthesis that is still open. In
the end there is the language of the regex, so that it can be told from the text alone.

* **tokens** — `Token.flatMap_text_injective`: a text is cut into tokens in one way only;
* **reading** — `Fits`: what a text does to reading in a place for texts that bind at least so
  tightly. Texts of looser places can be put there in parentheses (`Fits.parenthesize`);
* **texts** — `Tree.fits`: the text of a tree says its language, and hence
  `Tree.language_eq_of_text_eq`.
-/

namespace Residual

open Computability

namespace Connective

variable {α : Type} {op : Connective}

/-- An item that stands for several can be replaced by them. -/
theorem holds_cons_congr {p : α → Prop} {a : α} {bs as : List α} (h : p a ↔ op.Holds p bs) :
    op.Holds p (a :: as) ↔ op.Holds p (bs ++ as) := by
  cases op with
  | or => simp_all [holds_or, or_and_right, exists_or]
  | and => simp_all [holds_and, or_imp, forall_and]

/-- The words of a connective without members. -/
def unitWords (op : Connective) (α : Type) : Language α :=
  match op with
  | or => 0
  | and => ⊤

theorem holds_unitWords {w : List α} {Ls : List (Language α)} :
    op.Holds (w ∈ ·) (op.unitWords α :: Ls) ↔ op.Holds (w ∈ ·) Ls := by
  cases op with
  | or => simp [holds_or, unitWords]
  | and =>
      have all : w ∈ (⊤ : Language α) := trivial
      simp [holds_and, unitWords, all]

end Connective

/-! ## Tokens -/

/-- What the text of a regex is made of: symbols, and the characters with a meaning of their own. -/
inductive Token (σ : Type) where
  | symbol (c : σ)
  | operator (m : Char) (isOperator : m ∈ byteOperators)

namespace Token

variable {σ : Type} [Symbol σ]

/-- The text of a token. -/
def text : Token σ → List Char
  | symbol c => Symbol.text c
  | operator m _ => [m]

variable [Legible σ]

theorem text_ne_nil (t : Token σ) : t.text ≠ [] := by
  cases t with
  | symbol c =>
      obtain ⟨a, as, text, -⟩ := Legible.head_text c
      rw [Token.text, text]
      exact List.cons_ne_nil a as
  | operator m _ => exact List.cons_ne_nil m []

/-- A symbol never starts as an operator does. -/
theorem symbol_ne_operator {c : σ} {m : Char} (isOperator : m ∈ byteOperators)
    {rest rest' : List Char} : Symbol.text c ++ rest ≠ m :: rest' := by
  obtain ⟨a, as, text, other⟩ := Legible.head_text c
  rw [text, List.cons_append]
  intro same
  exact other ((List.cons.inj same).1 ▸ isOperator)

/-- The first token of a text can be told. -/
theorem first {t u : Token σ} {rest rest' : List Char} (same : t.text ++ rest = u.text ++ rest') :
    t = u := by
  cases t with
  | symbol c =>
      cases u with
      | symbol d =>
          have codes := congrArg Text.firstCode same
          rw [text, text, Legible.firstCode_text, Legible.firstCode_text] at codes
          rw [Symbol.code_inj.mp codes]
      | operator m isOperator => exact absurd same (symbol_ne_operator isOperator)
  | operator m isOperator =>
      cases u with
      | symbol d => exact absurd same.symm (symbol_ne_operator isOperator)
      | operator n _ =>
          obtain rfl : m = n := (List.cons.inj same).1
          rfl

/-- A text is cut into tokens in one way only. -/
theorem flatMap_text_injective : Function.Injective fun ts : List (Token σ) => ts.flatMap text :=
  flatMap_injective_of_first text_ne_nil fun _ _ _ _ => first

end Token

/-! ## Reading -/

namespace Display

variable {σ : Type}

/-- What has been read of a text since the last parenthesis that is still open, in languages. -/
structure Level (σ : Type) where
  /-- The words of complete alternatives. -/
  union : Language σ
  /-- The words that complete members of the alternative being read have in common. -/
  common : Language σ
  /-- The words of complete factors of the member being read. -/
  product : Language σ
  /-- The factor being read is negated. -/
  negated : Bool
  /-- The factor being read, unless it has not begun. -/
  factor : Option (Language σ)

namespace Level

/-- Nothing has been read. -/
def empty : Level σ := ⟨0, ⊤, 1, false, none⟩

/-- The words of the member being read, if it ends here. -/
def member (l : Level σ) : Language σ :=
  match l.factor with
  | none => l.product
  | some L => l.product * if l.negated then Lᶜ else L

/-- The words of the alternative being read, if it ends here. -/
def alternative (l : Level σ) : Language σ :=
  l.common ⊓ l.member

/-- The words of everything in the level, if it ends here. -/
def whole (l : Level σ) : Language σ :=
  l.union + l.alternative

/-- The level when the factor being read is complete. -/
def settle (l : Level σ) : Level σ :=
  match l.factor with
  | none => l
  | some _ => ⟨l.union, l.common, l.member, false, none⟩

/-- The level after the start of a factor. -/
def push (l : Level σ) (L : Language σ) : Level σ :=
  { l.settle with factor := some L }

/-- The level after a `!`. -/
def negate (l : Level σ) : Level σ :=
  { l.settle with negated := !l.settle.negated }

/-- The level after a `*`. -/
def close (l : Level σ) : Level σ :=
  { l with factor := l.factor.map fun L => L∗ }

/-- The level where a member of a connective starts, behind others and their words. -/
def fresh (op : Connective) (union base : Language σ) : Level σ :=
  match op with
  | .or => ⟨base, ⊤, 1, false, none⟩
  | .and => ⟨union, base, 1, false, none⟩

/-- The words of the members of a connective, if the last of them ends here. -/
def value (op : Connective) (l : Level σ) : Language σ :=
  match op with
  | .or => l.whole
  | .and => l.alternative

/-- The level after the character between members. -/
def next (op : Connective) (l : Level σ) : Level σ :=
  fresh op l.union (l.value op)

end Level

/-- What a token does to the level being read and to those around it. -/
def step (state : Level σ × List (Level σ)) (t : Token σ) : Level σ × List (Level σ) :=
  let (l, outer) := state
  match t with
  | .symbol c => (l.push {[c]}, outer)
  | .operator m _ =>
    match m with
    | '.' => (l.push {w | ∃ c, w = [c]}, outer)
    | '[' => (l.push 0, outer)
    | '!' => (l.negate, outer)
    | '*' => (l.close, outer)
    | '|' => (l.next .or, outer)
    | '&' => (l.next .and, outer)
    | '(' => (.empty, l :: outer)
    | ')' =>
      match outer with
      | [] => (l, [])
      | around :: outer => (around.push l.whole, outer)
    | _ => (l, outer)

/-! ## Levels -/

namespace Level

variable (l : Level σ) (L : Language σ)

@[simp] theorem union_settle : l.settle.union = l.union := by
  unfold settle
  split <;> rfl

@[simp] theorem common_settle : l.settle.common = l.common := by
  unfold settle
  split <;> rfl

@[simp] theorem union_push : (l.push L).union = l.union :=
  l.union_settle

@[simp] theorem common_push : (l.push L).common = l.common :=
  l.common_settle

@[simp] theorem union_negate : l.negate.union = l.union :=
  l.union_settle

@[simp] theorem common_negate : l.negate.common = l.common :=
  l.common_settle

theorem factor_settle : l.settle.factor = none := by
  unfold settle
  split
  · assumption
  · rfl

/-- A `!` before a factor negates it. -/
theorem member_negate_push : (l.negate.push L).member = (l.push Lᶜ).member := by
  have settled : l.negate.settle = l.negate := by
    have none : l.negate.factor = none := l.factor_settle
    rw [settle, none]
  rw [push, settled]
  show l.settle.product * (if !l.settle.negated then Lᶜ else L) =
    l.settle.product * if l.settle.negated then Lᶜᶜ else Lᶜ
  cases l.settle.negated <;> simp

/-- No `!` waits for its factor. -/
def Ready : Prop :=
  l.negated = true → l.factor.isSome = true

theorem ready_push : (l.push L).Ready :=
  fun _ => rfl

variable {l}

/-- A factor that is not negated stands behind those before it. -/
theorem Ready.member_push (h : l.Ready) : (l.push L).member = l.member * L := by
  obtain ⟨union, common, product, negated, factor⟩ := l
  cases factor with
  | some K => rfl
  | none =>
      have plain : negated = false := Bool.eq_false_iff.mpr fun waits => absurd (h waits) (by simp)
      rw [plain]
      rfl

end Level

variable [Symbol σ]

/-- Reading a text in one level leads to another, whatever levels are around it. -/
def Reads (text : List Char) (before after : Level σ) : Prop :=
  ∃ ts : List (Token σ), text = ts.flatMap Token.text ∧
    ∀ outer, ts.foldl step (before, outer) = (after, outer)

namespace Reads

variable {l : Level σ}

theorem nil (l : Level σ) : Reads [] l l :=
  ⟨[], rfl, fun _ => rfl⟩

theorem trans {a b : List Char} {first second third : Level σ} (h : Reads a first second)
    (h' : Reads b second third) : Reads (a ++ b) first third := by
  obtain ⟨ts, rfl, ht⟩ := h
  obtain ⟨us, rfl, hu⟩ := h'
  refine ⟨ts ++ us, List.flatMap_append.symm, ?_⟩
  intro outer
  rw [List.foldl_append, ht, hu]

theorem symbol (c : σ) (l : Level σ) : Reads (Symbol.text c) l (l.push {[c]}) :=
  ⟨[.symbol c], (List.append_nil _).symm, fun _ => rfl⟩

theorem operator {m : Char} (isOperator : m ∈ byteOperators) {before after : Level σ}
    (h : ∀ outer, step (before, outer) (.operator m isOperator) = (after, outer)) :
    Reads [m] before after :=
  ⟨[.operator m isOperator], rfl, h⟩

/-- The text in parentheses is a factor. -/
theorem group {text : List Char} {after : Level σ} (h : Reads text .empty after) (l : Level σ) :
    Reads (['('] ++ text ++ [')']) l (l.push after.whole) := by
  obtain ⟨ts, rfl, ht⟩ := h
  refine ⟨.operator '(' (by decide) :: ts ++ [.operator ')' (by decide)], ?_, ?_⟩
  · simp [Token.text]
  · intro outer
    rw [List.foldl_append, List.foldl_cons]
    show [Token.operator ')' _].foldl step (ts.foldl step (.empty, l :: outer)) = _
    rw [ht]
    rfl

theorem next (op : Connective) (l : Level σ) : Reads [op.char] l (l.next op) := by
  cases op with
  | or => exact operator (by decide) fun _ => rfl
  | and => exact operator (by decide) fun _ => rfl

end Reads

/-! ## Places -/

/-- In a place for texts that bind at least as tightly as `least`, the text says a language: as
alternatives, as members of an alternative, as factors of a member, as a factor with what negates
it, and as a factor. -/
def Fits (least : Nat) (text : List Char) (L : Language σ) : Prop :=
  match least with
  | 0 => ∃ l, Reads text .empty l ∧ l.whole = L
  | 1 => ∀ U, ∃ l, Reads text ⟨U, ⊤, 1, false, none⟩ l ∧ l.union = U ∧ l.alternative = L
  | 2 => ∀ l : Level σ, l.Ready → ∃ l', Reads text l l' ∧ l'.Ready ∧ l'.union = l.union ∧
      l'.common = l.common ∧ l'.member = l.member * L
  | 3 => ∀ l : Level σ, ∃ l', Reads text l l' ∧ l'.Ready ∧ l'.union = l.union ∧
      l'.common = l.common ∧ l'.member = (l.push L).member
  | _ => ∀ l : Level σ, Reads text l (l.push L)

namespace Fits

variable {text text' : List Char} {L M : Language σ}

theorem weaken {least : Nat} (h : Fits (least + 1) text L) : Fits least text L := by
  match least with
  | 0 =>
      obtain ⟨l, reads, union, alternative⟩ := h 0
      refine ⟨l, reads, ?_⟩
      rw [Level.whole, union, alternative, zero_add]
  | 1 =>
      intro U
      obtain ⟨l, reads, -, union, common, member⟩ :=
        h ⟨U, ⊤, 1, false, none⟩ fun waits => absurd waits Bool.false_ne_true
      refine ⟨l, reads, union, ?_⟩
      rw [Level.alternative, common, member]
      show ⊤ ⊓ 1 * L = L
      rw [one_mul, top_inf_eq]
  | 2 =>
      intro l ready
      obtain ⟨l', reads, ready', union, common, member⟩ := h l
      exact ⟨l', reads, ready', union, common, member.trans (ready.member_push L)⟩
  | 3 =>
      intro l
      exact ⟨l.push L, h l, l.ready_push L, l.union_push L, l.common_push L, rfl⟩
  | n + 4 => exact h

/-- What fits a place fits all looser ones. -/
theorem mono {least actual : Nat} (le : least ≤ actual) (h : Fits actual text L) :
    Fits least text L := by
  induction le with
  | refl => exact h
  | step _ ih => exact ih h.weaken

/-- Parentheses make a text fit everywhere. -/
theorem parenthesize {actual : Nat} (h : Fits actual text L) (least : Nat) :
    Fits least (Tree.parenthesize least actual text) L := by
  rw [Tree.parenthesize]
  split
  · obtain ⟨l, reads, rfl⟩ := h.mono (Nat.zero_le actual)
    have factor : Fits (least + 4) (['('] ++ text ++ [')']) l.whole := reads.group
    exact factor.mono (Nat.le_add_right least 4)
  · next tight => exact h.mono (Nat.le_of_not_lt tight)

/-! What operators make of texts that fit. -/

theorem star (h : Fits 5 text L) : Fits 4 (text ++ ['*']) (L∗) := by
  intro l
  have closes : Reads ['*'] (l.push L) (l.push L∗) := .operator (by decide) fun _ => rfl
  exact (h l).trans closes

theorem bang (h : Fits 3 text L) : Fits 3 (['!'] ++ text) (Lᶜ) := by
  intro l
  have negates : Reads ['!'] l l.negate := .operator (by decide) fun _ => rfl
  obtain ⟨l', reads, ready, union, common, member⟩ := h l.negate
  refine ⟨l', negates.trans reads, ready, union.trans l.union_negate, common.trans l.common_negate,
    ?_⟩
  rw [member, Level.member_negate_push]

theorem nil : Fits 2 [] (1 : Language σ) := by
  intro l ready
  exact ⟨l, .nil l, ready, rfl, rfl, (mul_one _).symm⟩

theorem mul (h : Fits 2 text L) (h' : Fits 2 text' M) : Fits 2 (text ++ text') (L * M) := by
  intro l ready
  obtain ⟨l₁, reads₁, ready₁, union₁, common₁, member₁⟩ := h l ready
  obtain ⟨l₂, reads₂, ready₂, union₂, common₂, member₂⟩ := h' l₁ ready₁
  refine ⟨l₂, reads₁.trans reads₂, ready₂, union₂.trans union₁, common₂.trans common₁, ?_⟩
  rw [member₂, member₁, mul_assoc]

theorem word (cs : List σ) : Fits 2 (cs.flatMap Symbol.text) ({cs} : Language σ) := by
  induction cs with
  | nil => exact nil
  | cons c cs ih =>
      have first : Fits 4 (Symbol.text c) ({[c]} : Language σ) := .symbol c
      have both : ({[c]} : Language σ) * {cs} = {c :: cs} := Set.image2_singleton
      rw [List.flatMap_cons, ← both]
      exact (first.mono (by decide)).mul ih

end Fits

/-! ## Connectives -/

variable {op : Connective}

/-- A member of a connective is added to those before it. -/
theorem Fits.member {text : List Char} {L : Language σ} (h : Fits (op.binding + 1) text L)
    (U B : Language σ) : ∃ l, Reads text (.fresh op U B) l ∧ (op = .and → l.union = U) ∧
      ∀ w, w ∈ l.value op ↔ op.Holds (w ∈ ·) [B, L] := by
  cases op with
  | or =>
      obtain ⟨l, reads, union, alternative⟩ := h B
      refine ⟨l, reads, (fun same => nomatch same), ?_⟩
      intro w
      rw [Level.value, Level.whole, union, alternative, Language.mem_add]
      simp [Connective.holds_or]
  | and =>
      obtain ⟨l, reads, -, union, common, member⟩ :=
        h ⟨U, B, 1, false, none⟩ fun waits => absurd waits Bool.false_ne_true
      refine ⟨l, reads, fun _ => union, ?_⟩
      intro w
      have meet : l.value .and = B ⊓ L := by
        rw [Level.value, Level.alternative, common, member]
        show B ⊓ 1 * L = B ⊓ L
        rw [one_mul]
      rw [meet]
      simp [Connective.holds_and]

/-- The members behind the first are added one after another. -/
theorem reads_members {α : Type} {text : α → List Char} {L : α → Language σ} {as : List α}
    (h : ∀ a ∈ as, Fits (op.binding + 1) (text a) (L a)) (l : Level σ) :
    ∃ l', Reads (as.flatMap fun a => op.char :: text a) l l' ∧ (op = .and → l'.union = l.union) ∧
      ∀ w, w ∈ l'.value op ↔ op.Holds (w ∈ ·) (l.value op :: as.map L) := by
  induction as generalizing l with
  | nil => exact ⟨l, .nil l, fun _ => rfl, fun w => (op.holds_singleton (w ∈ ·) _).symm⟩
  | cons a as ih =>
      obtain ⟨l₁, reads₁, union₁, value₁⟩ :=
        (h a (List.mem_cons_self ..)).member l.union (l.value op)
      obtain ⟨l₂, reads₂, union₂, value₂⟩ := ih (fun b mem => h b (List.mem_cons_of_mem _ mem)) l₁
      refine ⟨l₂, ?_, fun and => (union₂ and).trans (union₁ and), ?_⟩
      · have first := (Reads.next op l).trans reads₁
        exact first.trans reads₂
      · intro w
        rw [value₂, Connective.holds_cons_congr (value₁ w)]
        rfl

theorem fits_binding {text : List Char} {L : Language σ}
    (h : ∀ U, ∃ l, Reads text (.fresh op U (op.unitWords σ)) l ∧ (op = .and → l.union = U) ∧
      l.value op = L) : Fits op.binding text L := by
  cases op with
  | or =>
      obtain ⟨l, reads, -, whole⟩ := h 0
      exact ⟨l, reads, whole⟩
  | and =>
      intro U
      obtain ⟨l, reads, union, alternative⟩ := h U
      exact ⟨l, reads, union rfl, alternative⟩

theorem intercalate_cons {α : Type} (separator : α) (first : List α) (others : List (List α)) :
    [separator].intercalate (first :: others) =
      first ++ others.flatMap fun other => separator :: other := by
  induction others generalizing first with
  | nil => simp
  | cons other others ih =>
      rw [List.intercalate_cons_cons, ih]
      simp

theorem Fits.join {α : Type} {text : α → List Char} {L : α → Language σ} {a : α} {as : List α}
    (h : ∀ b ∈ a :: as, Fits (op.binding + 1) (text b) (L b)) :
    Fits op.binding ([op.char].intercalate ((a :: as).map text))
      {w | op.Holds (w ∈ ·) ((a :: as).map L)} := by
  apply fits_binding
  intro U
  obtain ⟨l₁, reads₁, union₁, value₁⟩ := (h a (List.mem_cons_self ..)).member U (op.unitWords σ)
  obtain ⟨l₂, reads₂, union₂, value₂⟩ :=
    reads_members (fun b mem => h b (List.mem_cons_of_mem _ mem)) l₁
  refine ⟨l₂, ?_, fun and => (union₂ and).trans (union₁ and), ?_⟩
  · rw [List.map_cons, intercalate_cons, List.flatMap_map]
    exact reads₁.trans reads₂
  · apply Language.ext
    intro w
    rw [value₂, Connective.holds_cons_congr (value₁ w)]
    exact Connective.holds_unitWords

end Display

/-! ## Texts -/

open Display

variable {σ : Type} [Symbol σ]

namespace Tree

/-- The text of a tree says the language of the tree. -/
theorem fits {t : Tree σ} (ht : t.Canonical) : Fits t.binding t.text t.language := by
  induction ht with
  | single c =>
      rw [text, language]
      exact .symbol c
  | @block cs _ =>
      rw [text, language]
      exact .word cs
  | any =>
      rw [text, language]
      intro l
      exact .operator (by decide) fun _ => rfl
  | fail =>
      rw [text, language]
      intro l
      have opens : Reads ['['] l (l.push 0) := .operator (by decide) fun _ => rfl
      have closes : Reads [']'] (l.push 0) (l.push 0) := .operator (by decide) fun _ => rfl
      exact opens.trans closes
  | @closure t _ _ ih =>
      rw [text, language, binding]
      split
      · next none =>
        -- the empty word is written as a group of nothing
        obtain rfl := isFail_iff.mp none
        have empty : Level.empty.whole = (fail : Tree σ).language∗ := by
          rw [language_fail, kstar_zero]
          show 0 + ⊤ ⊓ 1 = (1 : Language σ)
          rw [zero_add, top_inf_eq]
        rw [← empty]
        exact (Reads.nil .empty).group
      · exact (ih.parenthesize 5).star
  | negation _ _ ih =>
      rw [text, language]
      exact (ih.parenthesize 3).bang
  | sequence _ _ _ _ _ iht ihu =>
      rw [text, language]
      exact (iht.parenthesize 2).mul (ihu.parenthesize 2)
  | @join op members _ _ _ several ih =>
      rw [text, language, memberTexts_eq_map, languages_eq_map]
      cases members with
      | nil => simp at several
      | cons t members => exact Fits.join fun u mem => (ih u mem).parenthesize (op.binding + 1)

/-- The language of a tree can be told from its text. -/
theorem language_eq_of_text_eq [Legible σ] {t u : Tree σ} (ht : t.Canonical) (hu : u.Canonical)
    (same : t.text = u.text) : t.language = u.language := by
  obtain ⟨l, ⟨ts, texts, reads⟩, language⟩ := (fits ht).mono (Nat.zero_le _)
  obtain ⟨l', ⟨us, texts', reads'⟩, language'⟩ := (fits hu).mono (Nat.zero_le _)
  obtain rfl : ts = us := Token.flatMap_text_injective (texts.symm.trans (same.trans texts'))
  have levels : l = l' := congrArg Prod.fst ((reads []).symm.trans (reads' []))
  rw [← language, ← language', levels]

end Tree

namespace Regex

theorem accepts_eq_of_display_eq [Legible σ] {r s : Regex σ} (same : r.display = s.display)
    (w : List σ) : r.accepts w = s.accepts w := by
  have texts : r.tree.text = s.tree.text := String.ofList_injective same
  rw [Bool.eq_iff_iff, accepts_iff, accepts_iff, language, language,
    Tree.language_eq_of_text_eq r.canonical s.canonical texts]

/-- Texts are unambiguous: regexes over characters that are written in the same way accept the same
words, and so do regexes over bytes. -/
theorem display_unambiguous :
    (∀ r s : Regex Char, r.display = s.display → ∀ w, r.accepts w = s.accepts w) ∧
      ∀ r s : Regex UInt8, r.display = s.display → ∀ w, r.accepts w = s.accepts w :=
  ⟨fun _ _ => accepts_eq_of_display_eq, fun _ _ => accepts_eq_of_display_eq⟩

/-- One text for two regexes: a word of two symbols, and one symbol after the other. -/
theorem display_unambiguous_word :
    word ['*', 'a'] ≠ (single '*').andThen (single 'a') ∧
    (word ['*', 'a']).display = ((single '*').andThen (single 'a')).display ∧
    (word ['*', 'a']).display = "\\*a" ∧
    ∀ w, (word ['*', 'a']).accepts w = ((single '*').andThen (single 'a')).accepts w := by
  have same : (word ['*', 'a']).display = ((single '*').andThen (single 'a')).display := by decide
  refine ⟨?_, same, by decide, display_unambiguous.1 _ _ same⟩
  intro equal
  cases congrArg tree equal

end Regex

end Residual
