import Residual.Proofs.Factors
import Residual.Proofs.Grammar
import Residual.Proofs.NormalForm
import Residual.Regex.Display

/-!
# Texts that are patterns

The text of a regex and patterns share the notation for characters, repetitions, sequences and
unions. A regex made of these is what its own text stands for as a pattern.

* **places** — `Category.ofBinding`: how tightly a text binds says which rule of the grammar makes
  it. Texts of tighter places can stand in looser ones (`Spells.weaken`), and parentheses make a
  text fit for every place (`Spells.parenthesize`);
* **texts** — `Tree.spells`: the text of a tree is that of a pattern for the tree;
* **parsing** — `Regex.parse_display`: the text is parsed as the regex.

The pattern does not have the shape of the tree: it has groups and chains of a single item, and what
it stands for is simplified and sorted again. As the tree is canonical, that leads back to it.
-/

namespace Residual

namespace Pattern.Category

/-! ## Places -/

/-- The category of texts that bind so tightly. -/
def ofBinding : Nat → Category
  | 0 => alternation
  | 1 | 2 => concatenation
  | 3 | 4 => item
  | _ => atom

/-- The text is that of a pattern of the category, and the pattern stands for the tree. -/
def Spells (category : Category) (text : List Char) (t : Tree Char) : Prop :=
  ∃ p, Derives category p ∧ p.text = text ∧ p.regex.tree = t

namespace Spells

attribute [local simp] Pattern.text regex

variable {text text' : List Char} {t u : Tree Char}

theorem branch (h : concatenation.Spells text t) : alternation.Spells text t := by
  obtain ⟨p, derived, rfl, rfl⟩ := h
  refine ⟨.branches [p], .branches (by simp) (by simpa using derived), by simp, ?_⟩
  rw [regex]
  exact Tree.combine_singleton p.regex.canonical

theorem chain (h : item.Spells text t) : concatenation.Spells text t := by
  obtain ⟨p, derived, rfl, rfl⟩ := h
  refine ⟨.items [p], .items (by simp) (by simpa using derived), by simp, ?_⟩
  rw [regex]
  exact congrArg Regex.tree (Regex.andThen_epsilon p.regex)

theorem unrepeated (h : atom.Spells text t) : item.Spells text t := by
  obtain ⟨p, derived, text, regex⟩ := h
  exact ⟨p, .atom derived, text, regex⟩

/-- What binds more tightly can stand in a looser place. -/
theorem weaken {least actual : Nat} (le : least ≤ actual) (h : (ofBinding actual).Spells text t) :
    (ofBinding least).Spells text t := by
  induction le with
  | refl => exact h
  | @step n _ ih =>
      apply ih
      match n, h with
      | 0, h => exact h.branch
      | 1, h => exact h
      | 2, h => exact h.chain
      | 3, h => exact h
      | 4, h => exact h.unrepeated
      | n + 5, h => exact h

/-- An atom can stand everywhere. -/
theorem anywhere (h : atom.Spells text t) (least : Nat) : (ofBinding least).Spells text t := by
  have tight : (ofBinding (least + 5)).Spells text t := h
  exact tight.weaken (Nat.le_add_right least 5)

theorem group (h : alternation.Spells text t) : atom.Spells (['('] ++ text ++ [')']) t := by
  obtain ⟨p, derived, rfl, rfl⟩ := h
  exact ⟨.group p, .group derived, by simp, by simp⟩

/-- A text can stand everywhere, in parentheses where it binds too loosely. -/
theorem parenthesize {actual : Nat} (h : (ofBinding actual).Spells text t) (least : Nat) :
    (ofBinding least).Spells (Tree.parenthesize least actual text) t := by
  unfold Tree.parenthesize
  split
  · have whole : alternation.Spells text t := h.weaken (Nat.zero_le actual)
    exact whole.group.anywhere least
  · next tight => exact h.weaken (Nat.le_of_not_lt tight)

/-! ## Operations -/

/-- A backslash before a character serves patterns as well, and what needs none in a regex needs none
in a pattern, but for the two operators of patterns alone. -/
theorem single {c : Char} (visible : Text.isControl c = false) (plus : c ≠ '+')
    (optional : c ≠ '?') : atom.Spells (Symbol.text c) (.single c) := by
  show atom.Spells (if c ∈ charOperators then ['\\', c]
    else if Text.isControl c = true then Text.escapeControl c else [c]) (.single c)
  by_cases operator : c ∈ charOperators
  · rw [if_pos operator]
    exact ⟨.escaped c, .escaped c, by simp, by rw [regex]; rfl⟩
  · have ordinary : c ∉ operators := by
      simp only [charOperators, byteOperators, List.mem_cons, List.not_mem_nil, or_false,
        not_or] at operator
      simp [operators, operator, plus, optional]
    rw [if_neg operator, visible, if_neg Bool.false_ne_true]
    exact ⟨.char c, .char ordinary, by simp, by rw [regex]; rfl⟩

theorem star (h : atom.Spells text t) : item.Spells (text ++ ['*']) t.star := by
  obtain ⟨p, derived, rfl, rfl⟩ := h
  exact ⟨.repeated p .star, .repeated (.atom derived) .star, by rw [Pattern.text]; rfl,
    by rw [regex]; rfl⟩

theorem andThen (h : concatenation.Spells text t) (h' : concatenation.Spells text' u) :
    concatenation.Spells (text ++ text') (t.andThen u) := by
  obtain ⟨p, derived, rfl, rfl⟩ := h
  obtain ⟨p', derived', rfl, rfl⟩ := h'
  cases derived with
  | @items ps nonempty each =>
  cases derived' with
  | @items ps' _ each' =>
  refine ⟨.items (ps ++ ps'), .items (by simp [nonempty]) ?_, by simp, ?_⟩
  · intro q mem
    rcases List.mem_append.mp mem with mem | mem
    · exact each q mem
    · exact each' q mem
  · rw [regex, regex, regex, List.map_append, Regex.concat_append]
    rfl

/-- Where a text for each tree can stand between bars, there are patterns with these texts. -/
theorem exists_patterns {text : Tree Char → List Char} {ts : List (Tree Char)}
    (h : ∀ t ∈ ts, concatenation.Spells (text t) t) :
    ∃ ps : List Pattern, (∀ p ∈ ps, Derives .concatenation p) ∧
      ps.map Pattern.text = ts.map text ∧ (ps.map fun p => p.regex.tree) = ts := by
  induction ts with
  | nil => exact ⟨[], fun p mem => absurd mem List.not_mem_nil, rfl, rfl⟩
  | cons t ts ih =>
      obtain ⟨p, derived, same, rfl⟩ := h t (List.mem_cons_self ..)
      obtain ⟨ps, each, texts, rfl⟩ := ih fun u mem => h u (List.mem_cons_of_mem _ mem)
      refine ⟨p :: ps, List.forall_mem_cons.mpr ⟨derived, each⟩, ?_, rfl⟩
      rw [List.map_cons, List.map_cons, same, texts]

theorem union {text : Tree Char → List Char} {ts : List (Tree Char)} (nonempty : ts ≠ [])
    (h : ∀ t ∈ ts, concatenation.Spells (text t) t) :
    alternation.Spells (['|'].intercalate (ts.map text)) (.combine .or ts) := by
  obtain ⟨ps, each, texts, rfl⟩ := exists_patterns h
  refine ⟨.branches ps, .branches (by simpa using nonempty) each, ?_, ?_⟩
  · rw [Pattern.text, texts]
  · rw [regex]
    show Tree.combine .or ((ps.map fun p => p.regex).map Regex.tree) = _
    rw [List.map_map]
    rfl

end Spells

end Pattern.Category

open Pattern

namespace Tree

/-! ## Texts -/

/-- The node is written as in a pattern: it is a repetition, a sequence, a union or a character.
Control characters have escapes that patterns read otherwise, and patterns have two operators of
their own. -/
def isPatternLike : Tree Char → Bool
  | single c => !Text.isControl c && c != '+' && c != '?'
  | closure _ | sequence _ _ | join .or _ => true
  | block _ | any | fail | negation _ | join .and _ => false

/-- The text of a tree is that of a pattern for the tree. -/
theorem spells {t : Tree Char} (ht : t.Canonical)
    (pattern : ∀ n, Node n t → n.isPatternLike = true) :
    (Category.ofBinding t.binding).Spells t.text t := by
  induction ht with
  | single c =>
      have root := pattern _ .root
      simp only [isPatternLike, Bool.and_eq_true, Bool.not_eq_true', bne_iff_ne] at root
      obtain ⟨⟨visible, plus⟩, optional⟩ := root
      rw [text]
      exact .single visible plus optional
  | block | any | fail | negation => cases pattern _ .root
  | @closure t _ single ih =>
      obtain ⟨-, inside⟩ := forall_node_closure.mp pattern
      -- the closure of nothing would be written in another way
      have something : t.isFail = false := by
        cases t with
        | fail => cases inside _ .root
        | _ => rfl
      rw [text, binding, something, ← star_of_single single]
      exact ((ih inside).parenthesize 5).star
  | @sequence t u left right nested left_ne right_ne iht ihu =>
      obtain ⟨-, before, behind⟩ := forall_node_sequence.mp pattern
      have both := ((iht before).parenthesize 2).andThen ((ihu behind).parenthesize 2)
      rw [← sequence_eq_andThen (.sequence left right nested left_ne right_ne)] at both
      rw [text]
      exact both
  | @join op members canonical joins increasing several ih =>
      cases op with
      | and => cases pattern _ .root
      | or =>
          obtain ⟨-, inside⟩ := forall_node_join.mp pattern
          have each : ∀ t ∈ members,
              Category.concatenation.Spells (parenthesize 1 t.binding t.text) t :=
            fun t mem => (ih t mem (inside t mem)).parenthesize 1
          have nonempty : members ≠ [] := by
            rintro rfl
            simp at several
          have union := Category.Spells.union nonempty each
          rw [combine_members (.join canonical joins increasing several)] at union
          rw [text, memberTexts_eq_map]
          exact union

end Tree

namespace Regex

/-- A regex of characters, repetitions, sequences and unions is what its text is parsed as. -/
theorem parse_display {r : Regex Char}
    (pattern : ∀ n, Tree.Node n r.tree → n.isPatternLike = true) : parse r.display = .ok r := by
  obtain ⟨p, derived, text, tree⟩ := (Tree.spells r.canonical pattern).weaken (Nat.zero_le _)
  rw [parse, display, String.toList_ofList, ← text, derived.parse_text, ← tree_inj.mp tree]
  rfl

/-- One bar stands between alternatives and one is an alternative. Only the text of a regex escapes
the last character. -/
theorem parse_display_bar :
    let r : Regex Char := ((single 'a').or (single '|')).star.andThen (single '&')
    (∀ n, Tree.Node n r.tree → n.isPatternLike = true) ∧ r.display = "(a|\\|)*\\&" ∧
      parse r.display = .ok r := by
  intro r
  let members : List (Tree Char) := [.single 'a', .single '|']
  have digests : (Tree.single 'a').digest < (Tree.single '|').digest := by
    simp only [Tree.digest, Tree.nodeDigest]
    decide
  have increasing : (Tree.single 'a').order (.single '|') = .lt := by
    rw [Tree.order_eq_then, Std.compare_eq_lt.mpr digests]
    rfl
  have canonical : (Tree.join .or members).Canonical := by
    apply Tree.Canonical.join
    · simp [members, Tree.Canonical.single]
    · simp [members, Tree.joins_iff, Tree.success]
    · simpa [members, Tree.Increasing] using increasing
    · decide
  have tree : r.tree = .sequence (.closure (.join .or members)) (.single '&') := by
    show (Tree.combine .or members).star.andThen (.single '&') = _
    rw [Tree.combine_members canonical]
    rfl
  have pattern : ∀ n, Tree.Node n r.tree → n.isPatternLike = true := by
    rw [tree]
    decide
  have text : r.display = "(a|\\|)*\\&" := by
    rw [display, tree]
    decide
  exact ⟨pattern, text, parse_display pattern⟩

end Regex

end Residual
