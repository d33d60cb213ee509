import Residual.Proofs.Nesting

/-!
# Errors in patterns

An error of the parser says where a text stops being the beginning of a pattern, or what a text that
is the beginning of one still lacks.

* `Stands` — where reading stands behind a text, by rules;
* `Stands.viable` — a text that can be read up to its end can be continued to a pattern;
* `parse_error` — reading stops at a character that no rule lets stand there, or at the end;
* `Regex.parse_error_explains` — causes and offsets of errors, told by what can be continued.
-/

namespace Residual

namespace Pattern

/-! ## Where reading stands -/

theorem Level.items_push_ne_nil (level : Level) (p : Pattern) : (level.push p).items ≠ [] :=
  List.cons_ne_nil p level.items

/-- A character or an escape that stays in a level, and what it makes of the level. -/
inductive Level.Step : Level → List Char → Level → Prop
  | char {c : Char} (ordinary : c ∉ operators) (level : Level) :
      Step level [c] (level.push (.char c))
  | escaped (c : Char) (level : Level) : Step level ['\\', c] (level.push (.escaped c))
  | repeated (op : Repetition) (level : Level) (p : Pattern) :
      Step (level.push p) [op.char] (level.push (.repeated p op))
  | bar {level : Level} (nonempty : level.items ≠ []) : Step level ['|'] level.bar

namespace Level.Step

variable {level next : Level} {token : List Char}

theorem reads (h : Step level token next) : Reads token level next := by
  cases h with
  | char ordinary level => exact .char ordinary level
  | escaped c level => exact .escaped c level
  | repeated op level p => exact .repeated op level p
  | bar nonempty => exact .bar nonempty

theorem balanced (h : Step level token next) : Balanced token := by
  cases h with
  | @char c ordinary level =>
      obtain ⟨_, opening, closing, escape, _⟩ := not_mem_operators.mp ordinary
      have flat : step? c = none := by
        unfold step?
        split <;> first | contradiction | rfl
      exact .char escape flat
  | escaped c level => exact .escape c
  | repeated op level p => cases op <;> exact .char (by decide) rfl
  | bar nonempty => exact .char (by decide) rfl

/-- A level that something was read into is not empty again. -/
theorem ne_empty (h : Step level token next) : next.items ≠ [] ∨ next.branches ≠ [] := by
  cases h with
  | bar nonempty => exact .inr (List.cons_ne_nil _ _)
  | _ => exact .inl (Level.items_push_ne_nil _ _)

end Level.Step

/-- The level that is being read and the open groups behind a text. -/
inductive Stands : List Char → Level → List OpenGroup → Prop
  | start : Stands [] .empty []
  | step {text token : List Char} {level next : Level} {groups : List OpenGroup}
      (stands : Stands text level groups) (step : level.Step token next) :
      Stands (text ++ token) next groups
  | opening {text : List Char} {level : Level} {groups : List OpenGroup}
      (stands : Stands text level groups) :
      Stands (text ++ ['(']) .empty (⟨bytes text, level⟩ :: groups)
  | closing {text : List Char} {level : Level} {opened : OpenGroup} {groups : List OpenGroup}
      (stands : Stands text level (opened :: groups)) (nonempty : level.items ≠ []) :
      Stands (text ++ [')']) (opened.outer.push (.group level.whole)) groups

namespace Stands

variable {text : List Char} {level : Level} {groups : List OpenGroup}

/-- Reading a text from its start leads to where reading stands behind it. -/
theorem parse_append (h : Stands text level groups) (rest : List Char) :
    parse (text ++ rest) = read (bytes text) level groups rest := by
  induction h generalizing rest with
  | start => rfl
  | step _ step ih => rw [List.append_assoc, ih, step.reads, bytes_append]
  | opening _ ih =>
      rw [List.append_assoc, ih, bytes_append]
      rfl
  | closing _ nonempty ih =>
      rw [List.append_assoc, ih, bytes_append]
      exact read_close_of_items nonempty ..

theorem nested (h : Stands text level groups) : Nested text (groups.map OpenGroup.offset) := by
  induction h with
  | start => exact .outside .nil
  | step _ step ih => exact ih.append step.balanced
  | opening _ ih => exact ih.opened
  | closing _ _ ih => exact ih.closed

/-- Outside of all groups, nothing has been read into the level only at the start. -/
theorem eq_nil (h : Stands text level []) (items : level.items = [])
    (branches : level.branches = []) : text = [] := by
  cases h with
  | start => rfl
  | step _ step => exact absurd branches (step.ne_empty.resolve_left (absurd items))
  | closing _ _ => exact absurd items (Level.items_push_ne_nil _ _)

/-- In a group, nothing has been read into the level only right behind its parenthesis. -/
theorem eq_append {opened : OpenGroup} (h : Stands text level (opened :: groups))
    (items : level.items = []) (branches : level.branches = []) :
    ∃ before, text = before ++ ['('] ∧ bytes before = opened.offset := by
  cases h with
  | step _ step => exact absurd branches (step.ne_empty.resolve_left (absurd items))
  | opening _ => exact ⟨_, rfl, rfl⟩
  | closing _ _ => exact absurd items (Level.items_push_ne_nil _ _)

end Stands

/-! ## Texts that can be continued -/

/-- Something can be put behind the text so that a pattern arises. -/
def Viable (text : List Char) : Prop :=
  ∃ rest p, parse (text ++ rest) = .ok p

theorem Viable.of_append {a b : List Char} (h : Viable (a ++ b)) : Viable a := by
  obtain ⟨rest, p, parsed⟩ := h
  exact ⟨b ++ rest, p, by rwa [← List.append_assoc]⟩

/-- Behind an item, parentheses can close the open groups one by one. -/
theorem read_closings {level : Level} (nonempty : level.items ≠ []) (offset : Nat)
    (groups : List OpenGroup) :
    ∃ p, read offset level groups (List.replicate groups.length ')') = .ok p := by
  induction groups generalizing offset level with
  | nil =>
      exact ⟨level.whole, read_nil_of_items nonempty offset⟩
  | cons opened groups ih =>
      obtain ⟨p, closed⟩ := ih (opened.outer.items_push_ne_nil (.group level.whole)) (offset + 1)
      exact ⟨p, (read_close_of_items nonempty ..).trans closed⟩

/-- A text that can be read up to its end can be continued: one more character makes an item, and
then the open groups are closed. -/
theorem Stands.viable {text : List Char} {level : Level} {groups : List OpenGroup}
    (h : Stands text level groups) : Viable text := by
  have ordinary : 'a' ∉ operators := by decide
  have letter : Stands (text ++ ['a']) (level.push (.char 'a')) groups :=
    h.step (.char ordinary level)
  have item : (level.push (.char 'a')).items ≠ [] := level.items_push_ne_nil _
  obtain ⟨p, closed⟩ := read_closings item (bytes (text ++ ['a'])) groups
  have whole : Viable (text ++ ['a']) := ⟨_, p, (letter.parse_append _).trans closed⟩
  exact whole.of_append

/-! ## Where reading stops -/

/-- The error at a character that no rule lets stand here. -/
inductive Stops (offset : Nat) (level : Level) (groups : List OpenGroup) :
    Char → SyntaxError → Prop
  | bar (items : level.items = []) : Stops offset level groups '|' ⟨.emptyBranch, offset⟩
  | repetition (items : level.items = []) (op : Repetition) :
      Stops offset level groups op.char ⟨.nothingToRepeat, offset⟩
  | branch (items : level.items = []) (branches : level.branches ≠ []) :
      Stops offset level groups ')' ⟨.emptyBranch, offset⟩
  | unopened (complete : level.items ≠ [] ∨ level.branches = []) (outside : groups = []) :
      Stops offset level groups ')' ⟨.unopenedGroup, offset⟩
  | group {opened : OpenGroup} {around : List OpenGroup} (items : level.items = [])
      (branches : level.branches = []) (inside : groups = opened :: around) :
      Stops offset level groups ')' ⟨.emptyGroup, opened.offset⟩

/-- The error at the end of a text, or at a backslash that is the end. -/
inductive Lacks (offset : Nat) (level : Level) (groups : List OpenGroup) :
    List Char → SyntaxError → Prop
  | escape : Lacks offset level groups ['\\'] ⟨.danglingEscape, offset⟩
  | branch (items : level.items = []) (branches : level.branches ≠ []) :
      Lacks offset level groups [] ⟨.emptyBranch, offset⟩
  | closing {opened : OpenGroup} {around : List OpenGroup} (inside : groups = opened :: around) :
      Lacks offset level groups [] ⟨.unclosedGroup, opened.offset⟩
  | pattern (items : level.items = []) (branches : level.branches = []) (outside : groups = []) :
      Lacks offset level groups [] ⟨.emptyPattern, 0⟩

/-- Reading a text stops with an error, at a character or at its end. -/
inductive Fails : List Char → SyntaxError → Prop
  | stops {text rest : List Char} {level : Level} {groups : List OpenGroup} {c : Char}
      {e : SyntaxError} (stands : Stands text level groups)
      (stops : Stops (bytes text) level groups c e) : Fails (text ++ c :: rest) e
  | lacks {text rest : List Char} {level : Level} {groups : List OpenGroup} {e : SyntaxError}
      (stands : Stands text level groups) (lacks : Lacks (bytes text) level groups rest e) :
      Fails (text ++ rest) e

section

variable {offset : Nat} {level : Level} {groups : List OpenGroup} {rest : List Char}
  {e : SyntaxError}

/-- Whatever follows, the character is an error. -/
theorem Stops.read_eq {c : Char} (h : Stops offset level groups c e) (rest : List Char) :
    read offset level groups (c :: rest) = .error e := by
  obtain ⟨branches, items⟩ := level
  cases h with
  | bar items =>
      obtain rfl := items
      rfl
  | repetition items op =>
      obtain rfl := items
      cases op <;> rfl
  | branch items branches =>
      obtain rfl := items
      obtain ⟨p, ps, rfl⟩ := List.exists_cons_of_ne_nil branches
      rfl
  | unopened complete outside =>
      obtain rfl := outside
      cases items with
      | cons p ps => rfl
      | nil =>
          obtain rfl : branches = [] := complete.resolve_left (absurd rfl)
          rfl
  | group items branches inside =>
      obtain rfl := items
      obtain rfl := branches
      obtain rfl := inside
      rfl

theorem Stands.not_viable {text : List Char} {c : Char} (h : Stands text level groups)
    (stops : Stops (bytes text) level groups c e) : ¬ Viable (text ++ [c]) := by
  rintro ⟨rest, p, parsed⟩
  rw [List.append_assoc, h.parse_append, List.singleton_append, stops.read_eq] at parsed
  cases parsed

theorem read_nil_error (h : read offset level groups [] = .error e) :
    Lacks offset level groups [] e := by
  obtain ⟨branches, items⟩ := level
  cases items with
  | nil =>
      cases branches with
      | nil =>
          cases groups with
          | nil =>
              cases h
              exact .pattern rfl rfl rfl
          | cons opened around =>
              cases h
              exact .closing rfl
      | cons p ps =>
          cases h
          exact .branch rfl (List.cons_ne_nil p ps)
  | cons p ps =>
      cases groups with
      | nil => cases h
      | cons opened around =>
          cases h
          exact .closing rfl

/-- A closing parenthesis is an error itself, or it closes a group and the error is behind it. -/
theorem read_close_error (h : read offset level groups (')' :: rest) = .error e) :
    Stops offset level groups ')' e ∨
      ∃ opened around, groups = opened :: around ∧ level.items ≠ [] ∧
        read (offset + 1) (opened.outer.push (.group level.whole)) around rest = .error e := by
  obtain ⟨branches, items⟩ := level
  cases items with
  | nil =>
      cases branches with
      | nil =>
          cases groups with
          | nil =>
              cases h
              exact .inl (.unopened (.inr rfl) rfl)
          | cons opened around =>
              cases h
              exact .inl (.group rfl rfl rfl)
      | cons p ps =>
          cases h
          exact .inl (.branch rfl (List.cons_ne_nil p ps))
  | cons p ps =>
      cases groups with
      | nil =>
          cases h
          exact .inl (.unopened (.inl (List.cons_ne_nil p ps)) rfl)
      | cons opened around => exact .inr ⟨opened, around, rfl, List.cons_ne_nil p ps, h⟩

/-- An error behind a step is one of the whole text. -/
theorem Fails.of_step {text token : List Char} {next : Level} {after : Nat}
    (stands : Stands text level groups) (step : level.Step token next)
    (moved : after = bytes text + bytes token)
    (later : ∀ {text}, Stands text next groups → after = bytes text →
      read after next groups rest = .error e → Fails (text ++ rest) e)
    (h : read (bytes text) level groups (token ++ rest) = .error e) :
    Fails (text ++ (token ++ rest)) e := by
  rw [← List.append_assoc]
  refine later (stands.step step) ?_ ?_
  · rw [bytes_append, moved]
  · rw [moved, ← step.reads]
    exact h

/-- An error that is found while the rest of a text is read is one of the whole text. -/
theorem read_error {text : List Char} (stands : Stands text level groups)
    (here : offset = bytes text) (h : read offset level groups rest = .error e) :
    Fails (text ++ rest) e := by
  induction offset, level, groups, rest using read.induct generalizing text with
  | case1 offset level groups =>
      obtain rfl := here
      exact .lacks stands (read_nil_error h)
  | case2 offset level groups rest nothing =>
      obtain rfl := here
      have stops : Stops (bytes text) level groups '|' ⟨.emptyBranch, bytes text⟩ := .bar nothing
      cases (stops.read_eq rest).symm.trans h
      exact .stops stands stops
  | case3 offset level groups rest nonempty ih =>
      obtain rfl := here
      exact .of_step stands (.bar nonempty) rfl ih h
  | case4 offset level groups rest ih =>
      obtain rfl := here
      have inner := ih stands.opening (bytes_append text ['(']).symm h
      rwa [List.append_assoc] at inner
  | case5 offset level groups rest ih =>
      obtain rfl := here
      rcases read_close_error h with stops | ⟨opened, around, rfl, nonempty, h⟩
      · exact .stops stands stops
      · have outer := ih level.whole opened around (stands.closing nonempty)
          (bytes_append text [')']).symm h
        rwa [List.append_assoc] at outer
  | case6 offset level groups =>
      obtain rfl := here
      cases h
      exact .lacks stands .escape
  | case7 offset level groups c rest ih =>
      obtain rfl := here
      exact .of_step stands (.escaped c level) (Nat.add_assoc ..) ih h
  | case8 offset level groups c rest bar opening closing dangling escape none ih =>
      obtain rfl := here
      have backslash : c ≠ '\\' := by
        cases rest with
        | nil => exact fun same => dangling same rfl
        | cons d rest => exact fun same => escape d rest same rfl
      have ordinary := not_mem_operators.mpr ⟨bar, opening, closing, backslash, none⟩
      exact .of_step stands (.char ordinary level) rfl ih h
  | case9 offset level groups c rest _ _ _ _ _ op some nothing =>
      obtain rfl := here
      obtain rfl := Repetition.ofChar?_eq_some.mp some
      have stops : Stops (bytes text) level groups op.char ⟨.nothingToRepeat, bytes text⟩ :=
        .repetition nothing op
      cases (stops.read_eq rest).symm.trans h
      exact .stops stands stops
  | case10 offset level groups c rest _ _ _ _ _ op some q before items ih =>
      obtain rfl := here
      obtain ⟨branches, _⟩ := level
      obtain rfl : _ = q :: before := items
      obtain rfl := Repetition.ofChar?_eq_some.mp some
      have step : Level.Step ⟨branches, q :: before⟩ [op.char]
          ⟨branches, .repeated q op :: before⟩ := .repeated op ⟨branches, before⟩ q
      exact .of_step stands step (by rw [bytes_operator]) ih h

/-- Where and why a text is no pattern. -/
theorem parse_error {text : List Char} (h : parse text = .error e) : Fails text e :=
  read_error .start rfl h

/-! ## Causes and offsets -/

/-- Reading stops at the character itself, unless the character closes a group that is empty. -/
theorem Stands.stops_at {text : List Char} {c : Char} (stands : Stands text level groups)
    (h : Stops (bytes text) level groups c e) :
    (e.cause = .emptyBranch ∨ e.cause = .nothingToRepeat ∨ e.cause = .unopenedGroup) ∧
        e.offset = bytes text ∨
      e.cause = .emptyGroup ∧ c = ')' ∧
        ∃ before, text = before ++ ['('] ∧ bytes before = e.offset := by
  cases h with
  | bar items => exact .inl ⟨.inl rfl, rfl⟩
  | repetition items op => exact .inl ⟨.inr (.inl rfl), rfl⟩
  | branch items branches => exact .inl ⟨.inl rfl, rfl⟩
  | unopened complete outside => exact .inl ⟨.inr (.inr rfl), rfl⟩
  | group items branches inside =>
      obtain rfl := inside
      exact .inr ⟨rfl, rfl, stands.eq_append items branches⟩

/-- A text that lacks something can be continued. A lone backslash becomes an escape. -/
theorem Stands.viable_of_lacks {text : List Char} (stands : Stands text level groups)
    (h : Lacks (bytes text) level groups rest e) : Viable (text ++ rest) := by
  cases h with
  | escape =>
      have escaped := (stands.step (.escaped 'a' level)).viable
      have split : ['\\', 'a'] = ['\\'] ++ ['a'] := rfl
      rw [split, ← List.append_assoc] at escaped
      exact escaped.of_append
  | _ =>
      rw [List.append_nil]
      exact stands.viable

/-- What a text can lack, and where. -/
theorem Stands.lacks_at {text : List Char} (stands : Stands text level groups)
    (h : Lacks (bytes text) level groups rest e) :
    e.cause = .emptyPattern ∧ text ++ rest = [] ∧ e.offset = 0 ∨
      e.cause = .emptyBranch ∧ e.offset = bytes (text ++ rest) ∨
      e.cause = .unclosedGroup ∧ IsGreatest {offset | Unclosed (text ++ rest) offset} e.offset ∨
      e.cause = .danglingEscape ∧ rest = ['\\'] ∧ e.offset = bytes text ∧
        '\\' ∉ unescaped text := by
  cases h with
  | escape => exact .inr (.inr (.inr ⟨rfl, rfl, rfl, stands.nested.whole⟩))
  | branch items branches =>
      rw [List.append_nil]
      exact .inr (.inl ⟨rfl, rfl⟩)
  | closing inside =>
      obtain rfl := inside
      rw [List.append_nil]
      exact .inr (.inr (.inl ⟨rfl, stands.nested.isGreatest⟩))
  | pattern items branches outside =>
      obtain rfl := outside
      exact .inl ⟨rfl, by rw [stands.eq_nil items branches]; rfl, rfl⟩

end

end Pattern

theorem Pattern.utf8ByteSize_ofList (text : List Char) :
    (String.ofList text).utf8ByteSize = bytes text := by
  induction text with
  | nil => rfl
  | cons c text ih =>
      rw [String.ofList_cons, String.utf8ByteSize_append, String.utf8ByteSize_singleton, ih, bytes]

namespace Regex

/-- Something can be put behind the text so that it can be parsed. -/
def Viable (text : String) : Prop :=
  ∃ rest r, parse (text ++ rest) = .ok r

theorem Viable.of_append {a b : String} (h : Viable (a ++ b)) : Viable a := by
  obtain ⟨rest, r, parsed⟩ := h
  exact ⟨b ++ rest, r, by rwa [← String.append_assoc]⟩

theorem viable_ofList {text : List Char} : Viable (String.ofList text) ↔ Pattern.Viable text := by
  constructor
  · rintro ⟨rest, r, parsed⟩
    rw [parse, String.toList_append, String.toList_ofList] at parsed
    cases tree : Pattern.parse (text ++ rest.toList) with
    | error e =>
        rw [tree] at parsed
        cases parsed
    | ok p => exact ⟨rest.toList, p, tree⟩
  · rintro ⟨rest, p, parsed⟩
    refine ⟨String.ofList rest, p.regex, ?_⟩
    rw [parse, String.toList_append, String.toList_ofList, String.toList_ofList, parsed]
    rfl

end Regex

namespace SyntaxError

/-- What a text lacks, and where: anything at all, an item behind a bar, the parenthesis that closes
the last open group, or the character of an escape. -/
def Unfinished (e : SyntaxError) (text : String) : Prop :=
  e.cause = .emptyPattern ∧ text = "" ∧ e.offset = 0 ∨
  e.cause = .emptyBranch ∧ e.offset = text.utf8ByteSize ∨
  e.cause = .unclosedGroup ∧ IsGreatest {offset | Pattern.Unclosed text.toList offset} e.offset ∨
  e.cause = .danglingEscape ∧ e.offset + 1 = text.utf8ByteSize ∧
    ∃ before, text = before ++ "\\" ∧ '\\' ∉ Pattern.unescaped before.toList

/-- An error tells of a text where it stops being the beginning of a pattern, or what it lacks when
it is the beginning of one. -/
structure Explains (e : SyntaxError) (text : String) : Prop where
  /-- The offset is between two characters, or at an end of the text. -/
  boundary : ∃ before after, text = before ++ after ∧ e.offset = before.utf8ByteSize
  /-- These causes, and no others, are of texts that no pattern begins with. -/
  excluded : ¬ Regex.Viable text ↔ e.cause = .nothingToRepeat ∨ e.cause = .unopenedGroup ∨
    e.cause = .emptyGroup ∨ e.cause = .emptyBranch ∧ e.offset < text.utf8ByteSize
  /-- At the offset is the first character that no pattern goes on with. -/
  character : ¬ Regex.Viable text → e.cause ≠ .emptyGroup → ∃ before c after,
    text = before.push c ++ after ∧ e.offset = before.utf8ByteSize ∧
      Regex.Viable before ∧ ¬ Regex.Viable (before.push c)
  /-- If this character closes an empty group, then its parenthesis is at the offset. -/
  group : e.cause = .emptyGroup → ∃ before after,
    text = before ++ "()" ++ after ∧ e.offset = before.utf8ByteSize ∧
      Regex.Viable (before ++ "(") ∧ ¬ Regex.Viable (before ++ "()")
  /-- All other errors are of texts that a longer pattern begins with. -/
  continued : Regex.Viable text ↔ e.Unfinished text

end SyntaxError

namespace Regex

section

open Pattern

variable {text : List Char} {level : Level} {groups : List OpenGroup} {e : SyntaxError}

theorem explains_of_stops {c : Char} (stands : Stands text level groups)
    (stops : Stops (bytes text) level groups c e) (rest : List Char) :
    e.Explains (String.ofList (text ++ c :: rest)) := by
  have viable : Viable (String.ofList text) := viable_ofList.mpr stands.viable
  have stopped : ¬ Viable ((String.ofList text).push c) := by
    rw [String.push_eq_append, String.singleton_eq_ofList, ← String.ofList_append, viable_ofList]
    exact stands.not_viable stops
  have split : String.ofList (text ++ c :: rest) =
      (String.ofList text).push c ++ String.ofList rest := by
    rw [String.push_eq_append, String.append_assoc, ← String.ofList_cons, String.ofList_append]
  rw [split]
  have excluded : ¬ Viable ((String.ofList text).push c ++ String.ofList rest) :=
    fun viable => stopped viable.of_append
  rcases stands.stops_at stops with ⟨cause, offset⟩ | ⟨cause, rfl, before, rfl, offset⟩
  · have here : e.offset = (String.ofList text).utf8ByteSize :=
      offset.trans (utf8ByteSize_ofList text).symm
    have inside : e.offset < ((String.ofList text).push c ++ String.ofList rest).utf8ByteSize := by
      have character := c.utf8Size_pos
      rw [String.utf8ByteSize_append, String.utf8ByteSize_push, here]
      omega
    exact
      { boundary := ⟨_, _, by rw [String.push_eq_append, String.append_assoc], here⟩
        excluded := iff_of_true excluded (by grind)
        character := fun _ _ => ⟨_, c, _, rfl, here, viable, stopped⟩
        group := by grind
        continued := iff_of_false excluded (by grind [SyntaxError.Unfinished]) }
  · have here : e.offset = (String.ofList before).utf8ByteSize :=
      offset.symm.trans (utf8ByteSize_ofList before).symm
    have opening : String.ofList (before ++ ['(']) = String.ofList before ++ "(" :=
      String.ofList_append
    have closing : (String.ofList (before ++ ['('])).push ')' = String.ofList before ++ "()" := by
      rw [opening, String.push_eq_append, String.append_assoc]
      rfl
    rw [opening] at viable
    rw [closing] at stopped excluded ⊢
    exact
      { boundary := ⟨_, _, String.append_assoc, here⟩
        excluded := iff_of_true excluded (by grind)
        character := fun _ other => absurd cause other
        group := fun _ => ⟨_, _, rfl, here, viable, stopped⟩
        continued := iff_of_false excluded (by grind [SyntaxError.Unfinished]) }

theorem explains_of_lacks {rest : List Char} (stands : Stands text level groups)
    (lacks : Lacks (bytes text) level groups rest e) :
    e.Explains (String.ofList (text ++ rest)) := by
  have viable : Viable (String.ofList (text ++ rest)) :=
    viable_ofList.mpr (stands.viable_of_lacks lacks)
  have size := utf8ByteSize_ofList (text ++ rest)
  have lack : e.Unfinished (String.ofList (text ++ rest)) := by
    rw [SyntaxError.Unfinished, size, String.toList_ofList]
    rcases stands.lacks_at lacks with ⟨cause, nothing, offset⟩ | final | last |
      ⟨cause, rfl, offset, whole⟩
    · exact .inl ⟨cause, congrArg String.ofList nothing, offset⟩
    · exact .inr (.inl final)
    · exact .inr (.inr (.inl last))
    · refine .inr (.inr (.inr ⟨cause, ?_, String.ofList text, String.ofList_append, ?_⟩))
      · rw [bytes_append, offset]
        rfl
      · rwa [String.toList_ofList]
  constructor
  case boundary =>
    rcases lack with ⟨-, -, offset⟩ | ⟨-, offset⟩ | ⟨-, ⟨before, after, split, offset, -⟩, -⟩ |
      ⟨-, offset, before, split, -⟩
    · exact ⟨"", _, String.empty_append.symm, offset⟩
    · exact ⟨_, "", String.append_empty.symm, offset⟩
    · rw [String.toList_ofList] at split
      refine ⟨String.ofList before, String.ofList ('(' :: after), ?_, ?_⟩
      · rw [split, String.ofList_append]
      · rw [utf8ByteSize_ofList, offset]
    · refine ⟨before, _, split, ?_⟩
      rw [split, String.utf8ByteSize_append] at offset
      exact Nat.succ.inj offset
  case excluded => exact iff_of_false (not_not_intro viable) (by grind [SyntaxError.Unfinished])
  case character => exact fun excluded => absurd viable excluded
  case group => grind [SyntaxError.Unfinished]
  case continued => exact iff_of_true viable lack

end

/-- Every error of the parser explains its text: it is at the first point where no pattern goes on,
or at what is missing at the end. -/
theorem parse_error_explains {text : String} {e : SyntaxError} (h : parse text = .error e) :
    e.Explains text := by
  obtain ⟨chars, rfl⟩ : ∃ chars, text = String.ofList chars := ⟨_, String.ofList_toList.symm⟩
  have failed : Pattern.parse chars = .error e := by
    rw [parse, String.toList_ofList] at h
    cases tree : Pattern.parse chars with
    | ok p =>
        rw [tree] at h
        cases h
    | error other =>
        rw [tree] at h
        cases h
        rfl
  cases Pattern.parse_error failed with
  | stops stands stops => exact explains_of_stops stands stops _
  | lacks stands lacks => exact explains_of_lacks stands lacks

/-- Three groups are opened in this text, behind a character of two bytes. One of them is closed,
and the parenthesis after the backslash opens none. -/
theorem parse_error_explains_unclosed :
    parse "é|(a(b)\\((c|d" = .error ⟨.unclosedGroup, 10⟩ ∧ Viable "é|(a(b)\\((c|d" ∧
      IsGreatest {offset | Pattern.Unclosed "é|(a(b)\\((c|d".toList offset} 10 := by
  have failed : parse "é|(a(b)\\((c|d" = .error ⟨.unclosedGroup, 10⟩ := rfl
  have explained := parse_error_explains failed
  have viable : Viable "é|(a(b)\\((c|d" := by
    by_contra impossible
    simpa using explained.excluded.mp impossible
  have last := explained.continued.mp viable
  exact ⟨failed, viable, by simpa [SyntaxError.Unfinished] using last⟩

end Regex

end Residual
