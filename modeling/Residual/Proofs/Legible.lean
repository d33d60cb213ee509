import Residual.Symbol

/-!
# Legible symbols

The text of a symbol is legible if it can be told wherever it stands: what comes behind it does not
matter (`firstCode_text`), and nothing that a regex gives a meaning of its own starts as it does
(`head_text`). Characters and bytes are legible. Numbers are not, for `12` may be two symbols.
-/

namespace Residual

/-! ## Digits -/

namespace Text

/-- The value of a digit in base sixteen. -/
def digitValue (c : Char) : Nat :=
  if c.toNat < 0x41 then c.toNat - 0x30 else c.toNat % 0x20 + 9

/-- The value of some digits in base sixteen, the most significant first. -/
def digitsValue (digits : List Char) : Nat :=
  digits.foldl (fun value c => value * 16 + digitValue c) 0

theorem digitsValue_concat (digits : List Char) (c : Char) :
    digitsValue (digits ++ [c]) = digitsValue digits * 16 + digitValue c := by
  simp [digitsValue]

theorem digitValue_digitChar {n : Nat} (h : n < 16) : digitValue n.digitChar = n := by
  revert n
  decide

theorem digitValue_capital {n : Nat} (h : n < 16) : digitValue n.digitChar.toUpper = n := by
  revert n
  decide

theorem digitsValue_hexDigits (n : Nat) : digitsValue (hexDigits n) = n := by
  induction n using Nat.strongRecOn with
  | ind n ih =>
      rcases Nat.lt_or_ge n 16 with small | large
      · rw [hexDigits, Nat.toDigits_of_lt_base small]
        simpa [digitsValue] using digitValue_digitChar small
      · have front := ih (n / 16) (by omega)
        rw [hexDigits] at front
        rw [hexDigits, Nat.toDigits_of_base_le (by decide) large, digitsValue_concat, front,
          digitValue_digitChar (Nat.mod_lt n (by decide))]
        omega

theorem brace_not_mem_hexDigits (n : Nat) : '}' ∉ hexDigits n := by
  induction n using Nat.strongRecOn with
  | ind n ih =>
      rcases Nat.lt_or_ge n 16 with small | large
      · rw [hexDigits, Nat.toDigits_of_lt_base small]
        simp
      · have front := ih (n / 16) (by omega)
        rw [hexDigits] at front
        rw [hexDigits, Nat.toDigits_of_base_le (by decide) large, List.mem_append, not_or]
        exact ⟨front, by simp⟩

/-- The character that a character behind a backslash stands for. -/
def unescape : Char → Char
  | 't' => '\t'
  | 'r' => '\r'
  | 'n' => '\n'
  | c => c

theorem unescape_eq_self {c : Char} (nott : c ≠ 't') (notr : c ≠ 'r') (notn : c ≠ 'n') :
    unescape c = c := by
  unfold unescape
  split <;> first | contradiction | rfl

/-- The code of the first symbol of a text. -/
def firstCode : List Char → Nat
  | '\\' :: 'x' :: high :: low :: _ => digitsValue [high, low]
  | '\\' :: 'u' :: '{' :: rest => digitsValue (rest.takeWhile fun c => c ≠ '}')
  | '\\' :: c :: _ => (unescape c).toNat
  | c :: _ => c.toNat
  | [] => 0

theorem firstCode_escapeCode (c : Char) (rest : List Char) :
    firstCode (escapeCode c ++ rest) = c.toNat := by
  have digits : (hexDigits c.toNat ++ '}' :: rest).takeWhile (fun d => d ≠ '}') =
      hexDigits c.toNat := by
    rw [List.takeWhile_append_of_pos]
    · simp
    · intro d hd
      rw [decide_eq_true_eq]
      rintro rfl
      exact brace_not_mem_hexDigits c.toNat hd
  calc firstCode (escapeCode c ++ rest)
      = firstCode ('\\' :: 'u' :: '{' :: (hexDigits c.toNat ++ '}' :: rest)) := by
        simp [escapeCode]
    _ = digitsValue ((hexDigits c.toNat ++ '}' :: rest).takeWhile fun d => d ≠ '}') := rfl
    _ = c.toNat := by
        rw [digits, digitsValue_hexDigits]

theorem firstCode_short {c : Char} (notx : c ≠ 'x') (notu : c ≠ 'u') (rest : List Char) :
    firstCode ('\\' :: c :: rest) = (unescape c).toNat :=
  firstCode.eq_3 c rest (fun _ _ _ same _ => notx same) fun _ same _ => notu same

theorem firstCode_plain {c : Char} (plain : c ≠ '\\') (rest : List Char) :
    firstCode (c :: rest) = c.toNat :=
  firstCode.eq_4 c rest (fun _ _ _ same _ => plain same) (fun _ same _ => plain same)
    fun _ _ same _ => plain same

end Text

/-! ## Symbols -/

/-- Symbols whose texts are legible. -/
class Legible (σ : Type) [Symbol σ] : Prop where
  /-- The first symbol of a text can be told. -/
  firstCode_text : ∀ (c : σ) (rest : List Char),
    Text.firstCode (Symbol.text c ++ rest) = Symbol.code c
  /-- A symbol has a text that starts as no operator does. -/
  head_text : ∀ c : σ, ∃ a as, Symbol.text c = a :: as ∧ a ∉ byteOperators

/-- An operator behind a backslash stands for itself. -/
theorem Text.firstCode_operator {c : Char} (h : c ∈ charOperators) (rest : List Char) :
    firstCode ('\\' :: c :: rest) = c.toNat := by
  have ne {d : Char} (letter : d ∉ charOperators) : c ≠ d := by
    rintro rfl
    exact letter h
  have itself : unescape c = c :=
    unescape_eq_self (ne (by decide)) (ne (by decide)) (ne (by decide))
  rw [firstCode_short (ne (by decide)) (ne (by decide)), itself]

instance : Legible Char where
  firstCode_text c rest := by
    show Text.firstCode ((if c ∈ charOperators then ['\\', c]
      else if Text.isControl c then Text.escapeControl c else [c]) ++ rest) = c.toNat
    split
    · next operator => exact Text.firstCode_operator operator rest
    · next other =>
      split
      · unfold Text.escapeControl
        split
        · rfl
        · rfl
        · rfl
        · exact Text.firstCode_escapeCode c rest
      · apply Text.firstCode_plain
        rintro rfl
        exact other (by decide)
  head_text c := by
    show ∃ a as, (if c ∈ charOperators then ['\\', c]
      else if Text.isControl c then Text.escapeControl c else [c]) = a :: as ∧ a ∉ byteOperators
    split
    · exact ⟨_, _, rfl, by decide⟩
    · next other =>
      split
      · unfold Text.escapeControl
        split <;> exact ⟨_, _, rfl, by decide⟩
      · exact ⟨c, [], rfl, fun operator => other (List.mem_cons_of_mem _ operator)⟩

/-- The character of a byte. -/
theorem toNat_ofNat_byte (b : UInt8) : (Char.ofNat b.toNat).toNat = b.toNat := by
  have bound : b.toNat < 256 := b.toNat_lt
  have valid : b.toNat.isValidChar := .inl (by omega)
  rw [Char.ofNat, dif_pos valid]
  rfl

theorem Text.firstCode_byteDigits (b : UInt8) (rest : List Char) :
    firstCode (['\\', 'x'] ++ byteDigits b ++ rest) = b.toNat := by
  have bound : b.toNat < 256 := b.toNat_lt
  have high := digitValue_capital (n := b.toNat / 16) (by omega)
  have low := digitValue_capital (n := b.toNat % 16) (by omega)
  show digitsValue [(b.toNat / 16).digitChar.toUpper, (b.toNat % 16).digitChar.toUpper] = b.toNat
  simp only [digitsValue, List.foldl_cons, List.foldl_nil, high, low]
  omega

theorem Text.firstCode_escapeByte (b : UInt8) (rest : List Char) :
    firstCode (escapeByte b ++ rest) = b.toNat := by
  rw [← toNat_ofNat_byte b]
  unfold escapeByte
  split
  case h_7 backslash =>
    split
    · exact firstCode_plain backslash rest
    · rw [firstCode_byteDigits, toNat_ofNat_byte]
  -- the escapes of two characters
  all_goals
    next same =>
    rw [same]
    rfl

instance : Legible UInt8 where
  firstCode_text b rest := by
    show Text.firstCode ((if Char.ofNat b.toNat ∈ byteOperators then ['\\', Char.ofNat b.toNat]
      else Text.escapeByte b) ++ rest) = b.toNat
    split
    · next operator =>
      have code := Text.firstCode_operator (List.mem_cons_of_mem _ operator) rest
      exact code.trans (toNat_ofNat_byte b)
    · exact Text.firstCode_escapeByte b rest
  head_text b := by
    show ∃ a as, (if Char.ofNat b.toNat ∈ byteOperators then ['\\', Char.ofNat b.toNat]
      else Text.escapeByte b) = a :: as ∧ a ∉ byteOperators
    split
    · exact ⟨_, _, rfl, by decide⟩
    · next other =>
      unfold Text.escapeByte
      split
      case h_7 =>
        split
        · exact ⟨_, _, rfl, other⟩
        · exact ⟨_, _, rfl, by decide⟩
      all_goals exact ⟨_, _, rfl, by decide⟩

end Residual
