import Residual.Text.Escape

/-!
# Symbols

The alphabets that regexes are written over. A symbol is known by its numeric code: codes decide
equality and order, and they are what structural digests read. `Symbol` also says how a symbol is
written inside a regex (`text`) and how it is shown as a value (`quoted`). There are four alphabets:
bytes, 16-bit and 32-bit numbers, and characters.
-/

namespace Residual

/-- A type of symbols, each with a numeric code of its own. -/
class Symbol (σ : Type) where
  /-- The number that stands for the symbol. -/
  code : σ → Nat
  /-- Different symbols have different codes. -/
  code_injective : ∀ c d : σ, code c = code d → c = d
  /-- How many bytes of the code a digest reads, the least significant first. -/
  codeBytes : Nat
  /-- The symbol as it is written inside a regex. -/
  text : σ → List Char
  /-- The symbol as it is shown as a value. -/
  quoted : σ → List Char

namespace Symbol

variable {σ : Type} [Symbol σ]

theorem code_inj {c d : σ} : code c = code d ↔ c = d :=
  ⟨code_injective c d, congrArg code⟩

/-- Symbols are equal when their codes are. -/
instance (priority := low) instDecidableEq : DecidableEq σ :=
  fun _ _ => decidable_of_iff _ code_inj

end Symbol

/-- The characters that a byte regex gives a meaning of its own. -/
def byteOperators : List Char :=
  ['(', ')', '*', '|', '&', '!', '.', '[', ']']

/-- The characters that a character regex gives a meaning of its own. -/
def charOperators : List Char :=
  '\\' :: byteOperators

instance : Symbol UInt8 where
  code := UInt8.toNat
  code_injective _ _ := UInt8.toNat_inj.1
  codeBytes := 1
  text b :=
    let c := Char.ofNat b.toNat
    if c ∈ byteOperators then ['\\', c] else Text.escapeByte b
  quoted b := (toString b.toNat).toList

instance : Symbol UInt16 where
  code := UInt16.toNat
  code_injective _ _ := UInt16.toNat_inj.1
  codeBytes := 2
  text c := (toString c.toNat).toList
  quoted c := (toString c.toNat).toList

instance : Symbol UInt32 where
  code := UInt32.toNat
  code_injective _ _ := UInt32.toNat_inj.1
  codeBytes := 4
  text c := (toString c.toNat).toList
  quoted c := (toString c.toNat).toList

instance : Symbol Char where
  code := Char.toNat
  code_injective _ _ := Char.toNat_inj.1
  codeBytes := 4
  text c :=
    if c ∈ charOperators then ['\\', c]
    else if Text.isControl c then Text.escapeControl c
    else [c]
  quoted := Text.quote

end Residual
