import Mathlib.Combinatorics.Enumerative.DyckWord
import Mathlib.Order.Bounds.Basic
import Residual.Proofs.Grammar

/-!
# Nesting of groups

Which parentheses of a text open groups, and which of these groups are never closed. This is said of
the characters alone, for every text, a pattern or not. The groups of a text without its escapes are
a sequence of steps up and down, and texts that close what they open are known by `DyckWord`.

* `Unclosed` — a group is opened at a byte and never closed;
* `Nested.isGreatest` — the innermost group around the end of a text is the last unclosed one.
-/

namespace Residual

namespace Pattern

/-! ## Escapes -/

/-- The characters of a text that are in no escape. The backslash of an escape without a character
is left. -/
def unescaped : List Char → List Char
  | '\\' :: _ :: text => unescaped text
  | c :: text => c :: unescaped text
  | [] => []

theorem unescaped_cons {c : Char} (plain : c ≠ '\\') (text : List Char) :
    unescaped (c :: text) = c :: unescaped text :=
  unescaped.eq_2 c text fun _ _ same _ => plain same

/-- A text can be read apart from what follows when it does not end in the middle of an escape. -/
theorem unescaped_append {text : List Char} (whole : '\\' ∉ unescaped text) (rest : List Char) :
    unescaped (text ++ rest) = unescaped text ++ unescaped rest := by
  induction text using unescaped.induct with
  | case1 c text ih => exact ih whole
  | case2 c text other ih =>
      rw [unescaped.eq_2 c text other] at whole
      obtain ⟨backslash, whole⟩ := not_or.mp (mt List.mem_cons.mpr whole)
      rw [List.cons_append, unescaped.eq_2 c text other, unescaped_cons (Ne.symm backslash),
        ih whole, List.cons_append]
  | case3 => rfl

/-- The step of a character that is in no escape. -/
def step? : Char → Option DyckStep
  | '(' => some .U
  | ')' => some .D
  | _ => none

/-- The groups that a text opens and closes, as steps up and down. -/
def nesting (text : List Char) : List DyckStep :=
  (unescaped text).filterMap step?

theorem nesting_append {text : List Char} (whole : '\\' ∉ unescaped text) (rest : List Char) :
    nesting (text ++ rest) = nesting text ++ nesting rest := by
  rw [nesting, unescaped_append whole, List.filterMap_append]
  rfl

/-- A group is opened at this byte of a text and never closed: the parenthesis is in no escape, and
behind it never more groups have been closed than opened. -/
def Unclosed (text : List Char) (offset : Nat) : Prop :=
  ∃ before after, text = before ++ '(' :: after ∧ bytes before = offset ∧
    '\\' ∉ unescaped before ∧
    ∀ i, ((nesting after).take i).count .D ≤ ((nesting after).take i).count .U

/-! ## Balanced texts -/

/-- A text that closes the groups that it opens, and no others. -/
structure Balanced (text : List Char) : Prop where
  whole : '\\' ∉ unescaped text
  closed : ∃ word : DyckWord, word.toList = nesting text

namespace Balanced

theorem nil : Balanced [] where
  whole := List.not_mem_nil
  closed := ⟨0, rfl⟩

/-- A character that is no parenthesis opens and closes nothing. -/
theorem char {c : Char} (plain : c ≠ '\\') (flat : step? c = none) : Balanced [c] where
  whole := by
    rw [unescaped_cons plain]
    exact mt List.mem_singleton.mp (Ne.symm plain)
  closed := by
    refine ⟨0, ?_⟩
    rw [nesting, unescaped_cons plain, List.filterMap_cons_none flat]
    rfl

theorem escape (c : Char) : Balanced ['\\', c] where
  whole := List.not_mem_nil
  closed := ⟨0, rfl⟩

theorem append {a b : List Char} (ha : Balanced a) (hb : Balanced b) : Balanced (a ++ b) where
  whole := by
    rw [unescaped_append ha.whole, List.mem_append, not_or]
    exact ⟨ha.whole, hb.whole⟩
  closed := by
    obtain ⟨v, hv⟩ := ha.closed
    obtain ⟨w, hw⟩ := hb.closed
    refine ⟨v + w, ?_⟩
    rw [nesting_append ha.whole, ← hv, ← hw]
    rfl

theorem group {text : List Char} (h : Balanced text) : Balanced ('(' :: text ++ [')']) where
  whole := by
    have closing : unescaped [')'] = [')'] := rfl
    rw [List.cons_append, unescaped_cons (by decide), unescaped_append h.whole, closing]
    simpa using h.whole
  closed := by
    obtain ⟨word, hword⟩ := h.closed
    refine ⟨word.nest, ?_⟩
    calc word.nest.toList
        = .U :: (nesting text ++ [.D]) := by
          rw [← hword]
          rfl
      _ = .U :: nesting (text ++ [')']) := by
          rw [nesting_append h.whole]
          rfl
      _ = nesting ('(' :: text ++ [')']) := rfl

/-- A balanced text closes every group that it opens. -/
theorem closes {before after : List Char} (h : Balanced (before ++ '(' :: after))
    (whole : '\\' ∉ unescaped before) : (nesting after).count .U < (nesting after).count .D := by
  obtain ⟨word, hword⟩ := h.closed
  have steps : word.toList = nesting before ++ .U :: nesting after :=
    hword.trans (nesting_append whole _)
  have balance := word.count_U_eq_count_D
  have level := word.count_D_le_count_U (nesting before).length
  rw [steps, List.take_left' rfl] at level
  simp only [steps, List.count_append, List.count_cons_self, List.count_cons_of_ne,
    ne_eq, reduceCtorEq, not_false_eq_true] at balance
  omega

end Balanced

/-! ## Open groups -/

/-- At which bytes groups are open at the end of a text, the innermost first. -/
inductive Nested : List Char → List Nat → Prop
  | outside {text : List Char} (balanced : Balanced text) : Nested text []
  | inside {before inner : List Char} {offsets : List Nat} (around : Nested before offsets)
      (balanced : Balanced inner) : Nested (before ++ '(' :: inner) (bytes before :: offsets)

namespace Nested

variable {text : List Char} {offset : Nat} {offsets : List Nat}

theorem whole (h : Nested text offsets) : '\\' ∉ unescaped text := by
  induction h with
  | outside balanced => exact balanced.whole
  | @inside before inner _ _ balanced ih =>
      rw [unescaped_append ih, unescaped_cons (by decide)]
      simpa using ⟨ih, balanced.whole⟩

theorem append (h : Nested text offsets) {more : List Char} (balanced : Balanced more) :
    Nested (text ++ more) offsets := by
  cases h with
  | outside within => exact .outside (within.append balanced)
  | inside around within =>
      rw [List.append_assoc, List.cons_append]
      exact .inside around (within.append balanced)

theorem opened (h : Nested text offsets) : Nested (text ++ ['(']) (bytes text :: offsets) :=
  .inside h .nil

theorem closed (h : Nested text (offset :: offsets)) : Nested (text ++ [')']) offsets := by
  cases h with
  | inside around balanced =>
      rw [List.append_assoc]
      exact around.append balanced.group

/-- The innermost of the open groups is the last group that is never closed. -/
theorem isGreatest (h : Nested text (offset :: offsets)) :
    IsGreatest {offset | Unclosed text offset} offset := by
  cases h with
  | @inside before inner _ around balanced =>
      obtain ⟨word, hword⟩ := balanced.closed
      refine ⟨⟨before, inner, rfl, rfl, around.whole, hword ▸ word.count_D_le_count_U⟩, ?_⟩
      rintro _ ⟨later, after, same, rfl, whole, never⟩
      rcases List.append_eq_append_iff.mp same with ⟨between, rfl, tail⟩ | ⟨between, rfl, -⟩
      · cases between with
        | nil => simp
        | cons c between =>
            -- the group is opened within the innermost one, and closed there
            obtain ⟨rfl, rfl⟩ := List.cons.inj tail
            rw [unescaped_append around.whole, unescaped_cons (by decide)] at whole
            have inner : '\\' ∉ unescaped between := fun mem =>
              whole (List.mem_append_right _ (List.mem_cons_of_mem _ mem))
            have closed := balanced.closes inner
            have bound := never (nesting after).length
            rw [List.take_length] at bound
            omega
      · simp

end Nested

end Pattern

end Residual
