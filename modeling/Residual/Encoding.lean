import Residual.Regex.Substitution

/-!
# Text encodings

The encodings of characters as bytes, and the regexes over bytes that stand for regexes over
characters. `Encoding.piece` matches the bytes of any one character. It also matches byte strings
that encode nothing, but cutting an encoded text into pieces always cuts it between characters.
-/

namespace Residual

/-- A way of writing characters as bytes. -/
inductive Encoding where
  | utf8
  /-- UTF-16, the low byte of every unit first. -/
  | utf16le
  /-- UTF-16, the high byte of every unit first. -/
  | utf16be
  deriving DecidableEq

namespace Encoding

/-- The UTF-16 units of a character: one below U+10000, and a surrogate pair from there on. -/
def units16 (c : Char) : List UInt16 :=
  let code := c.toNat
  if code < 0x10000 then [UInt16.ofNat code]
  else
    let offset := code - 0x10000
    [UInt16.ofNat (0xD800 + offset / 0x400), UInt16.ofNat (0xDC00 + offset % 0x400)]

/-- The high byte of a unit. -/
def highByte (u : UInt16) : UInt8 :=
  (u >>> 8).toUInt8

/-- The low byte of a unit. -/
def lowByte (u : UInt16) : UInt8 :=
  u.toUInt8

/-- The bytes of one character. -/
def encodeChar : Encoding → Char → List UInt8
  | utf8, c => String.utf8EncodeChar c
  | utf16le, c => (units16 c).flatMap fun u => [lowByte u, highByte u]
  | utf16be, c => (units16 c).flatMap fun u => [highByte u, lowByte u]

/-- The bytes of a text. -/
def encode (e : Encoding) (text : List Char) : List UInt8 :=
  text.flatMap e.encodeChar

/-- Any one byte from the first to the last given. -/
def byteRange (first last : Nat) : Regex UInt8 :=
  .alternation ((List.range' first (last + 1 - first)).map fun b => .single (UInt8.ofNat b))

/-- The bytes that continue a character in UTF-8. -/
def continuation : Regex UInt8 :=
  byteRange 0x80 0xBF

/-- The high bytes of the second units of surrogate pairs. -/
def lowSurrogate : Regex UInt8 :=
  byteRange 0xDC 0xDF

/-- The bytes of any one character: in UTF-8 a byte that continues nothing and all continuation
bytes after it, in UTF-16 a unit that is no second surrogate and all second surrogates after it. -/
def piece : Encoding → Regex UInt8
  | utf8 => (Regex.any.and continuation.complement).andThen continuation.star
  | utf16le =>
      let first := Regex.any.andThen (Regex.any.and lowSurrogate.complement)
      first.andThen (Regex.any.andThen lowSurrogate).star
  | utf16be =>
      let first := (Regex.any.and lowSurrogate.complement).andThen .any
      first.andThen (lowSurrogate.andThen .any).star

end Encoding

/-- The regex over bytes that matches the encoding of a text when `r` matches the text. -/
def Regex.encode (e : Encoding) (r : Regex Char) : Regex UInt8 :=
  r.substituteWithin e.encodeChar e.piece

end Residual
