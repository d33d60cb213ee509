import Residual.Tree.Finite

/-!
# Regexes

A regular expression is a canonical tree, so that regexes which differ only by the laws of
sequences, unions and intersections are equal. Its operations are those on trees. The derivative of
a regex by a symbol matches a word exactly when the regex matches the symbol followed by the word; a
regex matches a word when its derivative by all symbols of the word, taken one after another,
matches the empty word: that is `accepts`. A regex has only finitely many derivatives
(`exists_derivative_closed`).
-/

namespace Residual

/-- A regular expression over the symbols `σ`. -/
@[ext]
structure Regex (σ : Type) [Symbol σ] where
  tree : Tree σ
  canonical : tree.Canonical

namespace Regex

variable {σ : Type} [Symbol σ]

/-! ## Equality and order -/

theorem tree_inj {r s : Regex σ} : r.tree = s.tree ↔ r = s :=
  Regex.ext_iff.symm

instance : DecidableEq (Regex σ) := fun _ _ => decidable_of_iff _ tree_inj

/-- The structural digest. -/
def digest (r : Regex σ) : UInt64 :=
  r.tree.digest

instance : Hashable (Regex σ) := ⟨digest⟩

/-- The order of two regexes: by digest, then by structure. -/
def order (r s : Regex σ) : Ordering :=
  r.tree.order s.tree

instance : Ord (Regex σ) := ⟨order⟩

/-! ## Constants and words -/

/-- The regex that matches one symbol. -/
def single (c : σ) : Regex σ := ⟨.single c, .single c⟩

/-- The regex that matches one word. -/
def word (cs : List σ) : Regex σ := ⟨.word cs, Tree.canonical_word cs⟩

/-- The regex that matches every word of one symbol. -/
def any : Regex σ := ⟨.any, .any⟩

/-- The regex that matches nothing. -/
def fail : Regex σ := ⟨.fail, .fail⟩

/-- The regex that matches the empty word only. -/
def epsilon : Regex σ := ⟨.epsilon, Tree.canonical_epsilon⟩

/-- The regex that matches every word. -/
def success : Regex σ := ⟨.success, Tree.canonical_success⟩

instance : Inhabited (Regex σ) := ⟨fail⟩

/-- The regex is the one that matches nothing. -/
def isFail (r : Regex σ) : Bool :=
  r.tree.isFail

/-- The regex is the one that matches the empty word only. -/
def isEpsilon (r : Regex σ) : Bool :=
  r.tree.isEpsilon

/-- The regex is the one that matches every word. -/
def isSuccess (r : Regex σ) : Bool :=
  r.tree.isSuccess

/-! ## Repetition and sequences -/

/-- Any number of repetitions. -/
def star (r : Regex σ) : Regex σ := ⟨r.tree.star, r.canonical.star⟩

/-- Every word that the regex does not match. -/
def complement (r : Regex σ) : Regex σ := ⟨r.tree.complement, r.canonical.complement⟩

/-- One regex followed by another. -/
def andThen (r s : Regex σ) : Regex σ := ⟨r.tree.andThen s.tree, r.canonical.andThen s.canonical⟩

/-- Regexes one after another. -/
def concat (rs : List (Regex σ)) : Regex σ :=
  rs.foldr andThen epsilon

/-- One or more repetitions. -/
def plus (r : Regex σ) : Regex σ :=
  r.andThen r.star

/-! ## Unions and intersections -/

theorem canonical_of_mem_map {rs : List (Regex σ)} : ∀ t ∈ rs.map tree, t.Canonical := by
  intro t ht
  obtain ⟨r, _, rfl⟩ := List.mem_map.1 ht
  exact r.canonical

/-- The join of a list of regexes. -/
def combine (op : Connective) (rs : List (Regex σ)) : Regex σ :=
  ⟨.combine op (rs.map tree), Tree.canonical_combine canonical_of_mem_map⟩

/-- The words that some regex of the list matches. -/
def alternation (rs : List (Regex σ)) : Regex σ :=
  combine .or rs

/-- The words that every regex of the list matches. -/
def intersection (rs : List (Regex σ)) : Regex σ :=
  combine .and rs

/-- The words that one of two regexes matches. -/
def or (r s : Regex σ) : Regex σ :=
  alternation [r, s]

/-- The words that both of two regexes match. -/
def and (r s : Regex σ) : Regex σ :=
  intersection [r, s]

/-- One repetition or none. -/
def optional (r : Regex σ) : Regex σ :=
  r.or epsilon

/-! Regexes combine with the operators of their algebra. -/

instance : Mul (Regex σ) := ⟨andThen⟩

instance : OrOp (Regex σ) := ⟨or⟩

instance : AndOp (Regex σ) := ⟨and⟩

instance : Complement (Regex σ) := ⟨complement⟩

/-! ## Matching -/

/-- The regex matches the empty word. -/
def nullable (r : Regex σ) : Bool :=
  r.tree.nullable

/-- What is left to match once the symbol `c` has been read. -/
def derivative (r : Regex σ) (c : σ) : Regex σ := ⟨r.tree.derivative c, r.canonical.derivative c⟩

/-- What is left to match once a word has been read. -/
def residual (r : Regex σ) (w : List σ) : Regex σ :=
  w.foldl derivative r

/-- The regex matches the word. Reading stops early once nothing can match any more. -/
def accepts (r : Regex σ) : List σ → Bool
  | [] => r.nullable
  | c :: w => if r.isFail then false else (r.derivative c).accepts w

/-! ## All derivatives -/

/-- Every regex belongs to a finite list of regexes that has all derivatives of its regexes. -/
theorem exists_derivative_closed (r : Regex σ) :
    ∃ rs : List (Regex σ), r ∈ rs ∧ ∀ s ∈ rs, ∀ c, s.derivative c ∈ rs := by
  obtain ⟨ts, mem, closed⟩ := r.canonical.exists_derivative_closed
  refine ⟨ts.pmap Regex.mk fun t ht => (closed t ht).1, List.mem_pmap.2 ⟨_, mem, rfl⟩, ?_⟩
  intro s hs c
  obtain ⟨t, ht, rfl⟩ := List.mem_pmap.1 hs
  exact List.mem_pmap.2 ⟨_, (closed t ht).2 c, rfl⟩

/-- The regex `r` is a derivative of `root` by some word. -/
def Reaches (root r : Regex σ) : Prop :=
  ∃ w, root.residual w = r

theorem Reaches.refl (root : Regex σ) : root.Reaches root :=
  ⟨[], rfl⟩

theorem Reaches.derivative {root r : Regex σ} (h : root.Reaches r) (c : σ) :
    root.Reaches (r.derivative c) := by
  obtain ⟨w, rfl⟩ := h
  exact ⟨w ++ [c], by simp [residual]⟩

/-- A list with all derivatives of a regex. -/
noncomputable def derivativeBound (root : Regex σ) : List (Regex σ) :=
  Classical.choose root.exists_derivative_closed

theorem Reaches.mem_derivativeBound {root r : Regex σ} (h : root.Reaches r) :
    r ∈ root.derivativeBound := by
  obtain ⟨mem, closed⟩ := Classical.choose_spec root.exists_derivative_closed
  obtain ⟨w, rfl⟩ := h
  suffices ∀ r ∈ root.derivativeBound, r.residual w ∈ root.derivativeBound from this root mem
  induction w with
  | nil => exact fun r hr => hr
  | cons c w ih => exact fun r hr => ih _ (closed r hr c)

end Regex

end Residual
