import Residual.Pattern.Parser

/-!
# The grammar of patterns

Which texts are patterns, said by rules instead of by reading. `Derives` tells which syntax trees
the rules make for each `Category`, and a `Derivation` of a text is a tree for a whole pattern that
writes this text.

* `read_sound` — what has been read is the text of a derived tree;
* `Derives.reads` — the text of a derived tree is read as this tree, whatever stands around it;
* `Regex.parse_grammar` — the texts that are patterns are those with a derivation, which is unique
  and gives the regex.
-/

namespace Residual

/-! ## Repetition operators -/

namespace Repetition

theorem ofChar?_eq_some {c : Char} {op : Repetition} : ofChar? c = some op ↔ c = op.char := by
  constructor
  · intro h
    unfold ofChar? at h
    split at h <;> cases h <;> rfl
  · rintro rfl
    cases op <;> rfl

theorem ofChar?_eq_none {c : Char} : ofChar? c = none ↔ c ≠ '*' ∧ c ≠ '+' ∧ c ≠ '?' := by
  constructor
  · intro h
    refine ⟨?_, ?_, ?_⟩ <;> rintro rfl <;> exact absurd h (by decide)
  · rintro ⟨a, b, d⟩
    unfold ofChar?
    split <;> first | contradiction | rfl

end Repetition

namespace Pattern

/-- The characters that stand for themselves are known by comparing them one by one. -/
theorem not_mem_operators {c : Char} : c ∉ operators ↔
    c ≠ '|' ∧ c ≠ '(' ∧ c ≠ ')' ∧ c ≠ '\\' ∧ Repetition.ofChar? c = none := by
  simp only [operators, List.mem_cons, List.not_mem_nil, or_false, not_or,
    Repetition.ofChar?_eq_none]
  constructor
  · rintro ⟨bar, opening, closing, star, plus, optional, escape⟩
    exact ⟨bar, opening, closing, escape, star, plus, optional⟩
  · rintro ⟨bar, opening, closing, escape, star, plus, optional⟩
    exact ⟨bar, opening, closing, star, plus, optional, escape⟩

/-! ## Rules -/

/-- The categories of the grammar. -/
inductive Category where
  /-- A whole pattern, or what stands in parentheses. -/
  | alternation
  /-- What stands between bars. -/
  | concatenation
  /-- What repetition operators may have been put behind. -/
  | item
  /-- What is repeated by the first operator behind it. -/
  | atom

/-- The trees of each category. An alternation is one or more concatenations with bars between them,
a concatenation is one or more items, an item is an atom with any number of operators behind it, and
an atom is a group, an escape or a character that is no operator. -/
inductive Derives : Category → Pattern → Prop
  | branches {ps : List Pattern} (nonempty : ps ≠ []) (each : ∀ p ∈ ps, Derives .concatenation p) :
      Derives .alternation (branches ps)
  | items {ps : List Pattern} (nonempty : ps ≠ []) (each : ∀ p ∈ ps, Derives .item p) :
      Derives .concatenation (items ps)
  | atom {p : Pattern} (derived : Derives .atom p) : Derives .item p
  | repeated {p : Pattern} (derived : Derives .item p) (op : Repetition) :
      Derives .item (repeated p op)
  | group {p : Pattern} (derived : Derives .alternation p) : Derives .atom (group p)
  | escaped (c : Char) : Derives .atom (escaped c)
  | char {c : Char} (ordinary : c ∉ operators) : Derives .atom (char c)

/-- A tree that the grammar has for a text. -/
@[ext]
structure Derivation (text : List Char) where
  tree : Pattern
  derived : Derives .alternation tree
  text_eq : tree.text = text

/-- Bars stand behind all alternatives but the last. -/
theorem text_branches (ps : List Pattern) (p : Pattern) :
    (branches (ps ++ [p])).text = (ps.flatMap fun q => q.text ++ ['|']) ++ p.text := by
  induction ps with
  | nil => simp [text]
  | cons q ps ih =>
      cases ps with
      | nil => simp [text, List.intercalate_cons_cons]
      | cons q' ps => simp_all [text, List.intercalate_cons_cons]

/-! ## Levels -/

namespace Level

/-- The text that has been read into a level. -/
def text (level : Level) : List Char :=
  (level.branches.reverse.flatMap fun p => p.text ++ ['|']) ++
    level.items.reverse.flatMap fun p => p.text

/-- The level after a bar. -/
def bar (level : Level) : Level :=
  ⟨.items level.items.reverse :: level.branches, []⟩

/-- What a level holds when it ends. -/
def whole (level : Level) : Pattern :=
  .branches level.bar.branches.reverse

@[simp]
theorem text_empty : empty.text = [] := rfl

@[simp]
theorem text_push (level : Level) (p : Pattern) : (level.push p).text = level.text ++ p.text := by
  simp [text, push]

@[simp]
theorem text_bar (level : Level) : level.bar.text = level.text ++ ['|'] := by
  simp [text, bar, Pattern.text]

@[simp]
theorem text_whole (level : Level) : level.whole.text = level.text := by
  simp [whole, bar, text_branches, text, Pattern.text]

/-- Everything in a level is derived. -/
structure Derived (level : Level) : Prop where
  branches : ∀ p ∈ level.branches, Derives .concatenation p
  items : ∀ p ∈ level.items, Derives .item p

theorem Derived.empty : empty.Derived where
  branches _ mem := absurd mem List.not_mem_nil
  items _ mem := absurd mem List.not_mem_nil

theorem Derived.push {level : Level} (h : level.Derived) {p : Pattern} (hp : Derives .item p) :
    (level.push p).Derived where
  branches := h.branches
  items := List.forall_mem_cons.mpr ⟨hp, h.items⟩

theorem Derived.bar {level : Level} (h : level.Derived) (nonempty : level.items ≠ []) :
    level.bar.Derived where
  branches := by
    refine List.forall_mem_cons.mpr ⟨.items (by simpa using nonempty) ?_, h.branches⟩
    intro p mem
    exact h.items p (List.mem_reverse.mp mem)
  items _ mem := absurd mem List.not_mem_nil

theorem Derived.whole {level : Level} (h : level.Derived) (nonempty : level.items ≠ []) :
    Derives .alternation level.whole := by
  refine .branches (by simp [Level.bar]) ?_
  intro p mem
  exact (h.bar nonempty).branches p (List.mem_reverse.mp mem)

end Level

/-! ## Reading what the rules make -/

/-- The number of bytes of a text in UTF-8. -/
def bytes : List Char → Nat
  | [] => 0
  | c :: text => c.utf8Size + bytes text

@[simp]
theorem bytes_append (a b : List Char) : bytes (a ++ b) = bytes a + bytes b := by
  induction a with
  | nil => simp [bytes]
  | cons c a ih => simp [bytes, ih, Nat.add_assoc]

@[simp]
theorem bytes_operator (op : Repetition) : bytes [op.char] = 1 := by
  cases op <;> rfl

/-- Behind an item, and outside of all groups, a text may end. -/
theorem read_nil_of_items {level : Level} (nonempty : level.items ≠ []) (offset : Nat) :
    read offset level [] [] = .ok level.whole := by
  obtain ⟨branches, items⟩ := level
  cases items with
  | nil => exact absurd rfl nonempty
  | cons p ps => rfl

/-- Behind an item, a parenthesis closes the innermost group. -/
theorem read_close_of_items {level : Level} (nonempty : level.items ≠ []) (offset : Nat)
    (opened : OpenGroup) (around : List OpenGroup) (rest : List Char) :
    read offset level (opened :: around) (')' :: rest) =
      read (offset + 1) (opened.outer.push (.group level.whole)) around rest := by
  obtain ⟨branches, items⟩ := level
  cases items with
  | nil => exact absurd rfl nonempty
  | cons p ps => rfl

/-- Reading a text in one level leads to another, in every group and whatever follows. -/
def Reads (text : List Char) (before after : Level) : Prop :=
  ∀ offset groups rest,
    read offset before groups (text ++ rest) = read (offset + bytes text) after groups rest

namespace Reads

theorem nil (level : Level) : Reads [] level level := by
  intro offset groups rest
  rfl

theorem trans {a b : List Char} {first second third : Level} (h : Reads a first second)
    (h' : Reads b second third) : Reads (a ++ b) first third := by
  intro offset groups rest
  rw [List.append_assoc, h, h', bytes_append, Nat.add_assoc]

theorem char {c : Char} (ordinary : c ∉ operators) (level : Level) :
    Reads [c] level (level.push (.char c)) := by
  intro offset groups rest
  obtain ⟨bar, opening, closing, escape, none⟩ := not_mem_operators.mp ordinary
  rw [List.singleton_append, read.eq_7 offset level groups c rest bar opening closing
    (fun h _ => escape h) (fun _ _ h _ => escape h), none]
  rfl

theorem escaped (c : Char) (level : Level) :
    Reads ['\\', c] level (level.push (.escaped c)) := by
  intro offset groups rest
  show read (offset + 1 + c.utf8Size) _ _ _ = _
  rw [Nat.add_assoc]
  rfl

theorem repeated (op : Repetition) (level : Level) (p : Pattern) :
    Reads [op.char] (level.push p) (level.push (.repeated p op)) := by
  intro offset groups rest
  cases op <;> rfl

theorem bar {level : Level} (nonempty : level.items ≠ []) : Reads ['|'] level level.bar := by
  intro offset groups rest
  obtain ⟨branches, items⟩ := level
  cases items with
  | nil => exact absurd rfl nonempty
  | cons p ps => rfl

theorem group {text : List Char} {level : Level} (h : Reads text .empty level)
    (nonempty : level.items ≠ []) (outer : Level) :
    Reads (['('] ++ text ++ [')']) outer (outer.push (.group level.whole)) := by
  intro offset groups rest
  calc read offset outer groups (['('] ++ text ++ [')'] ++ rest)
      = read (offset + 1) .empty (⟨offset, outer⟩ :: groups) (text ++ (')' :: rest)) := by
        rw [List.append_assoc, List.append_assoc]
        rfl
    _ = read (offset + 1 + bytes text) level (⟨offset, outer⟩ :: groups) (')' :: rest) := h ..
    _ = read (offset + 1 + bytes text + 1) (outer.push (.group level.whole)) groups rest :=
        read_close_of_items nonempty ..
    _ = read (offset + bytes (['('] ++ text ++ [')'])) (outer.push (.group level.whole)) groups
          rest := by
        have paren : bytes ['('] = 1 ∧ bytes [')'] = 1 := by decide
        simp only [bytes_append, paren, Nat.add_assoc]

/-- Items that are read one by one are read in a row. -/
theorem items {ps : List Pattern} (h : ∀ p ∈ ps, ∀ level, Reads p.text level (level.push p))
    (branches before : List Pattern) :
    Reads (ps.flatMap fun p => p.text) ⟨branches, before⟩ ⟨branches, ps.reverse ++ before⟩ := by
  induction ps generalizing before with
  | nil => exact nil _
  | cons p ps ih =>
      have first := h p List.mem_cons_self ⟨branches, before⟩
      have others := ih (fun q mem => h q (List.mem_cons_of_mem _ mem)) (p :: before)
      rw [List.flatMap_cons, List.reverse_cons, List.append_assoc ps.reverse]
      exact first.trans others

end Reads

/-- How a tree of each category is read. -/
def Category.Reads : Category → Pattern → Prop
  | alternation, p => ∃ level : Level,
      level.items ≠ [] ∧ level.whole = p ∧ Pattern.Reads p.text .empty level
  | concatenation, p => ∃ ps, ps ≠ [] ∧ Pattern.items ps = p ∧
      ∀ branches, Pattern.Reads p.text ⟨branches, []⟩ ⟨branches, ps.reverse⟩
  | item, p => ∀ level, Pattern.Reads p.text level (level.push p)
  | atom, p => ∀ level, Pattern.Reads p.text level (level.push p)

/-- Concatenations that are read one by one are read with bars behind them. -/
theorem Reads.branches {ps : List Pattern} (h : ∀ p ∈ ps, Category.concatenation.Reads p)
    (before : List Pattern) :
    Reads (ps.flatMap fun p => p.text ++ ['|']) ⟨before, []⟩ ⟨ps.reverse ++ before, []⟩ := by
  induction ps generalizing before with
  | nil => exact nil _
  | cons p ps ih =>
      obtain ⟨qs, nonempty, rfl, first⟩ := h p List.mem_cons_self
      have ended := (first before).trans (bar (by simpa using nonempty))
      have others := ih (fun q mem => h q (List.mem_cons_of_mem _ mem)) (.items qs :: before)
      rw [Level.bar, List.reverse_reverse] at ended
      rw [List.flatMap_cons, List.reverse_cons, List.append_assoc ps.reverse]
      exact ended.trans others

/-- The text of a derived tree is read as this tree. -/
theorem Derives.reads {category : Category} {p : Pattern} (h : Derives category p) :
    category.Reads p := by
  induction h with
  | @branches ps nonempty _ ih =>
      -- The last concatenation stays open: the level ends behind it, without a bar.
      obtain ⟨front, last, rfl⟩ : ∃ front last, ps = front ++ [last] :=
        ⟨_, _, (List.dropLast_concat_getLast nonempty).symm⟩
      obtain ⟨qs, items, rfl, final⟩ := ih last (by simp)
      have bars := Reads.branches (fun p (mem : p ∈ front) => ih p (by simp [mem])) []
      rw [List.append_nil] at bars
      refine ⟨⟨front.reverse, qs.reverse⟩, by simpa using items, ?_, ?_⟩
      · simp [Level.whole, Level.bar]
      · rw [text_branches]
        exact bars.trans (final front.reverse)
  | @items ps nonempty _ ih =>
      refine ⟨ps, nonempty, rfl, ?_⟩
      intro branches
      have row := Reads.items ih branches []
      rw [List.append_nil] at row
      rw [text]
      exact row
  | atom _ ih => exact ih
  | repeated _ op ih =>
      intro level
      rw [text]
      exact (ih level).trans (Reads.repeated op level _)
  | group _ ih =>
      obtain ⟨level, nonempty, rfl, inner⟩ := ih
      intro outer
      rw [text]
      exact inner.group nonempty outer
  | escaped c =>
      intro level
      rw [text]
      exact Reads.escaped c level
  | char ordinary =>
      intro level
      rw [text]
      exact Reads.char ordinary level

/-- The text of a derived tree is parsed as this tree. -/
theorem Derives.parse_text {p : Pattern} (h : Derives .alternation p) : parse p.text = .ok p := by
  obtain ⟨level, nonempty, rfl, whole⟩ := h.reads
  have read_all := whole 0 [] []
  rw [List.append_nil] at read_all
  exact read_all.trans (read_nil_of_items nonempty _)

/-! ## Rules for what is read -/

/-- The text that has been read before the innermost open group. -/
def openText (groups : List OpenGroup) : List Char :=
  groups.reverse.flatMap fun opened => opened.outer.text ++ ['(']

@[simp]
theorem openText_cons (opened : OpenGroup) (groups : List OpenGroup) :
    openText (opened :: groups) = openText groups ++ opened.outer.text ++ ['('] := by
  simp [openText]

/-- A text that is read to its end ends outside of all groups, behind an item. -/
theorem read_nil {offset : Nat} {level : Level} {groups : List OpenGroup} {p : Pattern}
    (h : read offset level groups [] = .ok p) :
    level.items ≠ [] ∧ level.whole = p ∧ groups = [] := by
  obtain ⟨branches, items⟩ := level
  cases items with
  | nil => cases branches <;> cases groups <;> cases h
  | cons q qs =>
      cases groups with
      | nil =>
          cases h
          exact ⟨List.cons_ne_nil q qs, rfl, rfl⟩
      | cons opened around => cases h

/-- A closing parenthesis that is read closes a group, behind an item. -/
theorem read_close {offset : Nat} {level : Level} {groups : List OpenGroup} {rest : List Char}
    {p : Pattern} (h : read offset level groups (')' :: rest) = .ok p) :
    ∃ opened around, groups = opened :: around ∧ level.items ≠ [] ∧
      read (offset + 1) (opened.outer.push (.group level.whole)) around rest = .ok p := by
  obtain ⟨branches, items⟩ := level
  cases items with
  | nil => cases branches <;> cases groups <;> cases h
  | cons q qs =>
      cases groups with
      | nil => cases h
      | cons opened around => exact ⟨opened, around, rfl, List.cons_ne_nil q qs, h⟩

/-- Reading keeps to the rules: from derived levels only derived trees arise, and their text is the
text that was read. -/
theorem read_sound {offset : Nat} {level : Level} {groups : List OpenGroup} {rest : List Char}
    {p : Pattern} (hlevel : level.Derived) (hgroups : ∀ opened ∈ groups, opened.outer.Derived)
    (h : read offset level groups rest = .ok p) :
    Derives .alternation p ∧ openText groups ++ level.text ++ rest = p.text := by
  induction offset, level, groups, rest using read.induct with
  | case1 offset level groups =>
      obtain ⟨nonempty, rfl, rfl⟩ := read_nil h
      exact ⟨hlevel.whole nonempty, by simp [openText]⟩
  | case2 offset level groups rest nothing =>
      obtain ⟨branches, items⟩ := level
      obtain rfl : items = [] := nothing
      cases h
  | case3 offset level groups rest nonempty ih =>
      have bar := Reads.bar nonempty offset groups rest
      obtain ⟨derived, same⟩ := ih (hlevel.bar nonempty) hgroups (bar.symm.trans h)
      have text : openText groups ++ level.bar.text ++ rest = p.text := same
      exact ⟨derived, by simpa using text⟩
  | case4 offset level groups rest ih =>
      obtain ⟨derived, same⟩ := ih .empty (List.forall_mem_cons.mpr ⟨hlevel, hgroups⟩) h
      exact ⟨derived, by simpa using same⟩
  | case5 offset level groups rest ih =>
      obtain ⟨opened, around, rfl, nonempty, h⟩ := read_close h
      obtain ⟨houter, hgroups⟩ := List.forall_mem_cons.mp hgroups
      have closed : Derives .item (.group level.whole) := .atom (.group (hlevel.whole nonempty))
      obtain ⟨derived, same⟩ := ih level.whole opened around (houter.push closed) hgroups h
      exact ⟨derived, by simpa [text] using same⟩
  | case6 offset level groups => cases h
  | case7 offset level groups c rest ih =>
      obtain ⟨derived, same⟩ := ih (hlevel.push (.atom (.escaped c))) hgroups h
      exact ⟨derived, by simpa [text] using same⟩
  | case8 offset level groups c rest bar opening closing dangling escape none ih =>
      have backslash : c ≠ '\\' := by
        cases rest with
        | nil => exact fun same => dangling same rfl
        | cons d rest => exact fun same => escape d rest same rfl
      have ordinary := not_mem_operators.mpr ⟨bar, opening, closing, backslash, none⟩
      have char := Reads.char ordinary level offset groups rest
      have pushed := hlevel.push (.atom (.char ordinary))
      obtain ⟨derived, same⟩ := ih pushed hgroups (char.symm.trans h)
      exact ⟨derived, by simpa [text] using same⟩
  | case9 offset level groups c rest _ _ _ _ _ op some nothing =>
      obtain ⟨branches, items⟩ := level
      obtain rfl : items = [] := nothing
      obtain rfl := Repetition.ofChar?_eq_some.mp some
      cases op <;> cases h
  | case10 offset level groups c rest _ _ _ _ _ op some q before items ih =>
      obtain ⟨branches, _⟩ := level
      obtain rfl : _ = q :: before := items
      obtain rfl := Repetition.ofChar?_eq_some.mp some
      obtain ⟨hq, hbefore⟩ := List.forall_mem_cons.mp hlevel.items
      have around : Level.Derived ⟨branches, before⟩ := ⟨hlevel.branches, hbefore⟩
      have repeated := Reads.repeated op ⟨branches, before⟩ q offset groups rest
      rw [bytes_operator] at repeated
      obtain ⟨derived, same⟩ := ih (around.push (.repeated hq op)) hgroups (repeated.symm.trans h)
      exact ⟨derived, by simpa [Level.text, text] using same⟩

/-- A text is parsed as a tree when the rules make this tree and it has this text. -/
theorem parse_eq_ok {text : List Char} {p : Pattern} :
    parse text = .ok p ↔ Derives .alternation p ∧ p.text = text := by
  constructor
  · intro h
    obtain ⟨derived, same⟩ := read_sound .empty (fun _ mem => absurd mem List.not_mem_nil) h
    exact ⟨derived, by simpa [openText] using same.symm⟩
  · rintro ⟨derived, rfl⟩
    exact derived.parse_text

end Pattern

end Residual
