import Residual.Symbol

/-!
# Digests

The 64-bit FNV-1a digest: from a fixed starting word, every byte is first combined with the digest
by exclusive or, and the result is then multiplied by a fixed prime modulo `2 ^ 64`. Numbers are
read as bytes, the least significant first.
-/

namespace Residual.Digest

/-- The digest of no bytes. -/
def empty : UInt64 := 14695981039346656037

/-- The multiplier. -/
def prime : UInt64 := 1099511628211

/-- The digest after one more byte. -/
def byte (digest : UInt64) (b : UInt8) : UInt64 :=
  (digest ^^^ b.toUInt64) * prime

/-- The digest after the lowest `count` bytes of a word, the least significant first. -/
def bytes (digest : UInt64) : (count : Nat) → (word : UInt64) → UInt64
  | 0, _ => digest
  | count + 1, word => bytes (byte digest word.toUInt8) count (word >>> 8)

/-- The digest after all eight bytes of a word. -/
def word (digest : UInt64) (w : UInt64) : UInt64 :=
  bytes digest 8 w

/-- The digest after a length, as a word. -/
def length (digest : UInt64) (n : Nat) : UInt64 :=
  word digest (UInt64.ofNat n)

/-- The digest after a list of words, preceded by its length. -/
def words (digest : UInt64) (ws : List UInt64) : UInt64 :=
  ws.foldl word (length digest ws.length)

/-- The digest after the code of a symbol. -/
def symbol {σ : Type} [Symbol σ] (digest : UInt64) (c : σ) : UInt64 :=
  bytes digest (Symbol.codeBytes σ) (UInt64.ofNat (Symbol.code c))

/-- The digest after a list of symbols, preceded by its length. -/
def symbols {σ : Type} [Symbol σ] (digest : UInt64) (cs : List σ) : UInt64 :=
  cs.foldl symbol (length digest cs.length)

/-- The digest of a tag, which starts the digest of every kind of node. -/
def tag (t : UInt8) : UInt64 :=
  byte empty t

/-- The published digest of the single byte 97. -/
example : tag 97 = 0xAF63DC4C8601EC8C := by decide

end Residual.Digest
