/-!
# Finding a byte

The first position of a byte in a list of bytes, or the length of the list if it has none. `Scanner`
names the ways of finding it: one byte at a time, by a library, or in blocks of two vectors, whose
comparisons with the byte make one word of bits in which the lowest bit that is set marks the first
match. Bytes behind the last whole block are scanned one at a time. A processor that does not have
the vectors leaves the search to the library.
-/

namespace Residual

/-- The ways of finding a byte. -/
inductive Scanner where
  /-- One byte at a time. -/
  | naive
  /-- The search of a library, which is one byte at a time as far as answers go. -/
  | memchr
  /-- Two vectors of 16 bytes at a time. -/
  | sse2
  /-- Two vectors of 32 bytes at a time. -/
  | avx2
  deriving DecidableEq

/-- The vectors that a processor has. -/
structure Processor where
  sse2 : Bool
  avx2 : Bool

/-- The processor with all vectors. -/
def Processor.complete : Processor := ⟨true, true⟩

namespace Scanner

/-- The number of bytes before the first that is `needle`. -/
def findNaive (needle : UInt8) (haystack : List UInt8) : Nat :=
  haystack.findIdx (· == needle)

/-- The position that a library gives, if it finds the byte. -/
def findByLibrary? (needle : UInt8) (haystack : List UInt8) : Option Nat :=
  haystack.findIdx? (· == needle)

/-! ## Comparing vectors -/

/-- A vector compared with a byte: every lane has all bits set if it is the byte, else none. -/
def compareLanes (needle : UInt8) (lanes : List UInt8) : List UInt8 :=
  lanes.map fun b => if b == needle then 255 else 0

/-- The highest bits of all lanes as a signed word, that of the first lane the lowest. -/
def highestBits : List UInt8 → Int32
  | [] => 0
  | b :: bs => (highestBits bs <<< 1) ||| (if 128 ≤ b then 1 else 0)

/-- The lanes of a vector that are the byte, as the bits of an unsigned word. -/
def matchWord (needle : UInt8) (lanes : List UInt8) : UInt32 :=
  (highestBits (compareLanes needle lanes)).toUInt32

/-- Vectors that are compared two at a time. -/
structure Pairing where
  /-- The number of lanes of a vector. -/
  width : Nat
  /-- There is a lane. -/
  width_pos : 0 < width
  /-- A word of 32 bits has one for every lane. -/
  width_le : width ≤ 32
  /-- The word of both comparisons, with the later lanes above the earlier ones. -/
  join : (high low : UInt32) → BitVec (2 * width)
  /-- The earlier lanes have the lower bits. -/
  getLsbD_join_low : ∀ (high low : UInt32) (i : Nat), i < width →
    (join high low).getLsbD i = low.toBitVec.getLsbD i
  /-- The later lanes have the higher bits, if nothing else is there. -/
  getLsbD_join_high : ∀ (high low : UInt32) (i : Nat), i < width →
    (∀ j, width ≤ j → low.toBitVec.getLsbD j = false) →
    (join high low).getLsbD (width + i) = high.toBitVec.getLsbD i

/-- Vectors of 16 lanes, whose two comparisons fill a word of 32 bits. -/
def Pairing.sixteen : Pairing where
  width := 16
  width_pos := by decide
  width_le := by decide
  join high low := ((high <<< 16) ||| low).toBitVec
  getLsbD_join_low high low i hi := by simp [hi]
  getLsbD_join_high high low i hi rest := by
    have inside : 16 + i < 32 := by omega
    have above : ¬ 16 + i < 16 := by omega
    rw [UInt32.toBitVec_or, BitVec.getLsbD_or, rest _ (Nat.le_add_right 16 i)]
    simp [-BitVec.getLsbD_eq_getElem, inside, above]

/-- Vectors of 32 lanes, whose two comparisons fill a word of 64 bits. -/
def Pairing.thirtyTwo : Pairing where
  width := 32
  width_pos := by decide
  width_le := by decide
  join high low := ((high.toUInt64 <<< 32) ||| low.toUInt64).toBitVec
  getLsbD_join_low high low i hi := by
    have inside : i < 64 := by omega
    simp [hi, inside]
  getLsbD_join_high high low i hi _ := by
    have inside : 32 + i < 64 := by omega
    simp [inside]

/-- The bytes of a block of two vectors that are the byte, as the bits of one word. -/
def blockWord (vectors : Pairing) (needle : UInt8) (block : List UInt8) :
    BitVec (2 * vectors.width) :=
  vectors.join (matchWord needle (block.drop vectors.width))
    (matchWord needle (block.take vectors.width))

/-- Finds a byte in blocks of two vectors. `before` is the number of bytes that were passed over. -/
def findBlocks (vectors : Pairing) (needle : UInt8) (before : Nat) (haystack : List UInt8) : Nat :=
  let block := haystack.take (2 * vectors.width)
  if whole : block.length = 2 * vectors.width then
    let word := blockWord vectors needle block
    if word != 0 then before + word.ctz.toNat
    else findBlocks vectors needle (before + 2 * vectors.width)
      (haystack.drop (2 * vectors.width))
  else before + findNaive needle haystack
termination_by haystack.length
decreasing_by
  have := vectors.width_pos
  rw [List.length_take] at whole
  rw [List.length_drop]
  omega

/-! ## Searching -/

/-- The processor can run the scanner. -/
def isAvailable (processor : Processor) : Scanner → Bool
  | naive => true
  | memchr => true
  | sse2 => processor.sse2
  | avx2 => processor.avx2

/-- The first position of a byte, or the length of the haystack, on a processor. -/
def findOn (processor : Processor) (scanner : Scanner) (needle : UInt8) (haystack : List UInt8) :
    Nat :=
  match scanner, scanner.isAvailable processor with
  | naive, _ => findNaive needle haystack
  | sse2, true => findBlocks .sixteen needle 0 haystack
  | avx2, true => findBlocks .thirtyTwo needle 0 haystack
  | _, _ => (findByLibrary? needle haystack).getD haystack.length

/-- The scanner with the widest vectors that a processor has. -/
def widest (processor : Processor) : Scanner :=
  if avx2.isAvailable processor then avx2
  else if sse2.isAvailable processor then sse2
  else memchr

/-- The first position of a byte, or the length of the haystack. -/
def find (scanner : Scanner) (needle : UInt8) (haystack : List UInt8) : Nat :=
  findOn .complete scanner needle haystack

end Scanner

/-- The first position of a byte, or the length of the haystack, on a processor. -/
def findByteOn (processor : Processor) (needle : UInt8) (haystack : List UInt8) : Nat :=
  Scanner.findOn processor (.widest processor) needle haystack

/-- The first position of a byte, or the length of the haystack. -/
def findByte (needle : UInt8) (haystack : List UInt8) : Nat :=
  findByteOn .complete needle haystack

end Residual
