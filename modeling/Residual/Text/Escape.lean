import Residual.Text.Invisible

/-!
# Escaped symbols

How a single byte or character is written where its bare form would be unreadable or would mean
something else. `escapeByte` writes a byte in ASCII. `escapeControl` writes a control character.
`quote` writes a character as a value, between single quotes.
-/

namespace Residual.Text

/-- The digits of a number in base sixteen, most significant first and at least one. -/
def hexDigits (n : Nat) : List Char :=
  Nat.toDigits 16 n

/-- A code point as `\u`, braces and lower case digits. -/
def escapeCode (c : Char) : List Char :=
  ['\\', 'u', '{'] ++ hexDigits c.toNat ++ ['}']

/-- The two digits of a byte in base sixteen, in capitals. -/
def byteDigits (b : UInt8) : List Char :=
  [b.toNat / 16, b.toNat % 16].map fun d => (Nat.digitChar d).toUpper

/-- A byte in ASCII. Tab, return, newline, both quotes and the backslash have escapes of two
characters, other printable bytes stand for themselves, and the rest are `\x` and two digits. -/
def escapeByte (b : UInt8) : List Char :=
  match Char.ofNat b.toNat with
  | '\t' => ['\\', 't']
  | '\r' => ['\\', 'r']
  | '\n' => ['\\', 'n']
  | '\x27' => ['\\', '\x27']
  | '"' => ['\\', '"']
  | '\\' => ['\\', '\\']
  | c => if 0x20 ≤ b && b < 0x7F then [c] else ['\\', 'x'] ++ byteDigits b

/-- The C0 and C1 controls and the delete character. -/
def isControl (c : Char) : Bool :=
  c.toNat < 0x20 || (0x7F ≤ c.toNat && c.toNat < 0xA0)

/-- A control character by its short escape, if it has one, or by its code point. -/
def escapeControl (c : Char) : List Char :=
  match c with
  | '\t' => ['\\', 't']
  | '\r' => ['\\', 'r']
  | '\n' => ['\\', 'n']
  | c => escapeCode c

/-- A character as a value, between single quotes. -/
def quote (c : Char) : List Char :=
  let body := match c with
    | '\x00' => ['\\', '0']
    | '\t' => ['\\', 't']
    | '\r' => ['\\', 'r']
    | '\n' => ['\\', 'n']
    | '\x27' => ['\\', '\x27']
    | '\\' => ['\\', '\\']
    | c => if isInvisible c then escapeCode c else [c]
  ['\x27'] ++ body ++ ['\x27']

end Residual.Text
