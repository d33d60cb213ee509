import Residual.Encoding
import Residual.Proofs.Framing
import Residual.Proofs.Substitution

/-!
# Encoded characters are pieces

A piece of an encoding is a unit that leads and the units that trail it (`language_piece`), where a
unit is a byte in UTF-8 and two bytes in UTF-16. Which of them it does is seen from one byte of the
unit. The first unit of an encoded character leads and all others trail (`encodeChar_mem_piece`).
Bytes are cut into pieces in at most one way (`Encoding.pieces_unique`), so that encoded text is cut
between characters only (`Encoding.aligned`).
-/

namespace Residual

open Computability

namespace Encoding

/-! ## Languages of bytes -/

/-- The bytes with a property, as words. -/
def bytesWith (p : UInt8 → Prop) : Language UInt8 :=
  {w | ∃ b, w = [b] ∧ p b}

/-- The byte is in the range. -/
def InRange (first last : Nat) (b : UInt8) : Prop :=
  first ≤ b.toNat ∧ b.toNat ≤ last

theorem language_byteRange {first last : Nat} (h : last < 256) :
    (byteRange first last).language = bytesWith (InRange first last) := by
  apply Language.ext
  intro w
  rw [byteRange, Regex.mem_language_alternation]
  constructor
  · rintro ⟨r, hr, hw⟩
    obtain ⟨n, hn, rfl⟩ := List.mem_map.mp hr
    rw [List.mem_range'_1] at hn
    have number : (UInt8.ofNat n).toNat = n := by
      rw [UInt8.toNat_ofNat']
      omega
    refine ⟨UInt8.ofNat n, Regex.mem_language_single.mp hw, ?_⟩
    rw [InRange, number]
    omega
  · rintro ⟨b, rfl, low, high⟩
    refine ⟨.single b, List.mem_map.mpr ⟨b.toNat, ?_, ?_⟩, Regex.mem_language_single.mpr rfl⟩
    · rw [List.mem_range'_1]
      omega
    · rw [UInt8.ofNat_toNat]

theorem language_any : (Regex.any : Regex UInt8).language = bytesWith fun _ => True := by
  apply Language.ext
  intro w
  rw [Regex.mem_language_any]
  exact exists_congr fun b => (and_iff_left trivial).symm

/-- All bytes but those of another regex. -/
theorem language_other {r : Regex UInt8} {p : UInt8 → Prop} (h : r.language = bytesWith p) :
    (Regex.any.and r.complement).language = bytesWith fun b => ¬ p b := by
  apply Language.ext
  intro w
  rw [Regex.language_and, Regex.language_complement, language_any, h]
  constructor
  · rintro ⟨⟨b, rfl, -⟩, outside⟩
    exact ⟨b, rfl, fun inside => outside ⟨b, rfl, inside⟩⟩
  · rintro ⟨b, rfl, outside⟩
    refine ⟨⟨b, rfl, trivial⟩, ?_⟩
    rintro ⟨b', same, inside⟩
    obtain rfl := List.singleton_inj.mp same
    exact outside inside

theorem mem_bytesWith_mul {p q : UInt8 → Prop} {w : List UInt8} :
    w ∈ bytesWith p * bytesWith q ↔ ∃ a b, w = [a, b] ∧ p a ∧ q b := by
  constructor
  · rintro ⟨x, ⟨a, rfl, ha⟩, y, ⟨b, rfl, hb⟩, rfl⟩
    exact ⟨a, b, rfl, ha, hb⟩
  · rintro ⟨a, b, rfl, ha, hb⟩
    exact ⟨[a], ⟨a, rfl, ha⟩, [b], ⟨b, rfl, hb⟩, rfl⟩

/-! ## Units -/

/-- The units whose telling byte has a property. In UTF-16 that is the high byte. -/
def units (e : Encoding) (p : UInt8 → Prop) : Language UInt8 :=
  match e with
  | utf8 => bytesWith p
  | utf16le => bytesWith (fun _ => True) * bytesWith p
  | utf16be => bytesWith p * bytesWith (fun _ => True)

/-- The telling byte of a unit that trails. -/
def Trails (e : Encoding) (b : UInt8) : Prop :=
  match e with
  | utf8 => InRange 0x80 0xBF b
  | utf16le => InRange 0xDC 0xDF b
  | utf16be => InRange 0xDC 0xDF b

/-- The number of bytes of a unit. -/
def unitSize : Encoding → Nat
  | utf8 => 1
  | utf16le => 2
  | utf16be => 2

theorem length_of_mem_units {e : Encoding} {p : UInt8 → Prop} {u : List UInt8}
    (hu : u ∈ e.units p) : u.length = e.unitSize := by
  cases e with
  | utf8 =>
      obtain ⟨b, rfl, -⟩ := hu
      rfl
  | utf16le =>
      obtain ⟨a, b, rfl, -, -⟩ := mem_bytesWith_mul.mp hu
      rfl
  | utf16be =>
      obtain ⟨a, b, rfl, -, -⟩ := mem_bytesWith_mul.mp hu
      rfl

theorem not_mem_units {e : Encoding} {p : UInt8 → Prop} {u : List UInt8}
    (hu : u ∈ e.units fun b => ¬ p b) : u ∉ e.units p := by
  intro hp
  cases e with
  | utf8 =>
      obtain ⟨b, rfl, outside⟩ := hu
      obtain ⟨b', same, inside⟩ := hp
      obtain rfl := List.singleton_inj.mp same
      exact outside inside
  | utf16le =>
      obtain ⟨a, b, rfl, -, outside⟩ := mem_bytesWith_mul.mp hu
      obtain ⟨a', b', same, -, inside⟩ := mem_bytesWith_mul.mp hp
      obtain ⟨rfl, rfl⟩ : a = a' ∧ b = b' := by simpa using same
      exact outside inside
  | utf16be =>
      obtain ⟨a, b, rfl, outside, -⟩ := mem_bytesWith_mul.mp hu
      obtain ⟨a', b', same, inside, -⟩ := mem_bytesWith_mul.mp hp
      obtain ⟨rfl, rfl⟩ : a = a' ∧ b = b' := by simpa using same
      exact outside inside

theorem framed (e : Encoding) :
    Framed e.unitSize (e.units fun b => ¬ e.Trails b) (e.units e.Trails) where
  pos := by cases e <;> decide
  lead_length := fun _ => length_of_mem_units
  trail_length := fun _ => length_of_mem_units
  disjoint := fun _ => not_mem_units

/-- A piece is a unit that leads and the units that trail it. -/
theorem language_piece (e : Encoding) :
    e.piece.language = (e.units fun b => ¬ e.Trails b) * (e.units e.Trails)∗ := by
  have low : lowSurrogate.language = bytesWith (InRange 0xDC 0xDF) :=
    language_byteRange (by decide)
  cases e with
  | utf8 =>
      have trails : continuation.language = bytesWith (InRange 0x80 0xBF) :=
        language_byteRange (by decide)
      rw [piece, Regex.language_andThen, Regex.language_star, language_other trails, trails]
      rfl
  | utf16le =>
      rw [piece, Regex.language_andThen, Regex.language_star, Regex.language_andThen,
        Regex.language_andThen, language_other low, low, language_any]
      rfl
  | utf16be =>
      rw [piece, Regex.language_andThen, Regex.language_star, Regex.language_andThen,
        Regex.language_andThen, language_other low, low, language_any]
      rfl

/-! ## UTF-8 -/

theorem inRange_continuations (codes : List Nat) :
    ∀ b ∈ codes.map fun n => UInt8.ofNat (n % 0x40 + 0x80), InRange 0x80 0xBF b := by
  intro b hb
  obtain ⟨n, -, rfl⟩ := List.mem_map.mp hb
  rw [InRange, UInt8.toNat_ofNat']
  omega

theorem not_inRange_first {n : Nat} (h : n < 0x80 ∨ 0xC0 ≤ n ∧ n < 0x100) :
    ¬ InRange 0x80 0xBF (UInt8.ofNat n) := by
  rw [InRange, UInt8.toNat_ofNat']
  omega

/-- The first byte of a character continues nothing, and all others do. -/
theorem utf8EncodeChar_eq_cons (c : Char) : ∃ b bs, String.utf8EncodeChar c = b :: bs ∧
    ¬ InRange 0x80 0xBF b ∧ ∀ d ∈ bs, InRange 0x80 0xBF d := by
  unfold String.utf8EncodeChar
  dsimp only
  -- one case for every number of bytes; the last of them have six bits each
  split
  · exact ⟨_, _, rfl, not_inRange_first (by omega), inRange_continuations []⟩
  · split
    · refine ⟨_, _, rfl, not_inRange_first (by omega), ?_⟩
      exact inRange_continuations [c.val.toNat]
    · split
      · refine ⟨_, _, rfl, not_inRange_first (by omega), ?_⟩
        exact inRange_continuations [c.val.toNat / 64, c.val.toNat]
      · refine ⟨_, _, rfl, not_inRange_first (by omega), ?_⟩
        exact inRange_continuations [c.val.toNat / 4096, c.val.toNat / 64, c.val.toNat]

theorem utf8EncodeChar_injective : Function.Injective String.utf8EncodeChar := by
  intro c d same
  -- decoding gives the character back
  have decoded (c : Char) :=
    ByteArray.utf8DecodeChar?_utf8EncodeChar_append (b := ByteArray.empty) (c := c)
  have other := decoded c
  rw [same, decoded d] at other
  exact (Option.some.inj other).symm

/-! ## UTF-16 -/

theorem toNat_highByte (u : UInt16) : (highByte u).toNat = u.toNat / 0x100 := by
  have bound : u.toNat < 0x10000 := u.toNat_lt
  rw [highByte, UInt16.toNat_toUInt8, UInt16.toNat_shiftRight]
  show u.toNat >>> 8 % 0x100 = _
  rw [Nat.shiftRight_eq_div_pow]
  omega

theorem toNat_lowByte (u : UInt16) : (lowByte u).toNat = u.toNat % 0x100 :=
  UInt16.toNat_toUInt8 u

/-- A unit can be told from its bytes. -/
theorem unit_injective {u v : UInt16} (high : highByte u = highByte v)
    (low : lowByte u = lowByte v) : u = v := by
  have highs := congrArg UInt8.toNat high
  have lows := congrArg UInt8.toNat low
  rw [toNat_highByte, toNat_highByte] at highs
  rw [toNat_lowByte, toNat_lowByte] at lows
  apply UInt16.toNat_inj.mp
  omega

theorem units16_of_lt {c : Char} (h : c.toNat < 0x10000) :
    units16 c = [UInt16.ofNat c.toNat] :=
  if_pos h

theorem units16_of_ge {c : Char} (h : 0x10000 ≤ c.toNat) :
    units16 c = [UInt16.ofNat (0xD800 + (c.toNat - 0x10000) / 0x400),
      UInt16.ofNat (0xDC00 + (c.toNat - 0x10000) % 0x400)] :=
  if_neg (Nat.not_lt.mpr h)

/-- Characters are no surrogates. -/
theorem scalar (c : Char) :
    c.toNat < 0xD800 ∨ 0xDFFF < c.toNat ∧ c.toNat < 0x110000 :=
  c.valid

/-- The first unit of a character is no second surrogate, and all others are. -/
theorem units16_eq_cons (c : Char) : ∃ u us, units16 c = u :: us ∧
    ¬ InRange 0xDC 0xDF (highByte u) ∧ ∀ v ∈ us, InRange 0xDC 0xDF (highByte v) := by
  have valid := scalar c
  rcases Nat.lt_or_ge c.toNat 0x10000 with small | large
  · refine ⟨_, _, units16_of_lt small, ?_, by simp⟩
    rw [InRange, toNat_highByte, UInt16.toNat_ofNat']
    omega
  · refine ⟨_, _, units16_of_ge large, ?_, ?_⟩
    · rw [InRange, toNat_highByte, UInt16.toNat_ofNat']
      omega
    · intro v hv
      rw [List.mem_singleton.mp hv, InRange, toNat_highByte, UInt16.toNat_ofNat']
      omega

theorem units16_injective : Function.Injective units16 := by
  intro c d same
  have validc := scalar c
  have validd := scalar d
  apply Char.toNat_inj.mp
  rcases Nat.lt_or_ge c.toNat 0x10000 with smallc | largec <;>
    rcases Nat.lt_or_ge d.toNat 0x10000 with smalld | larged
  · rw [units16_of_lt smallc, units16_of_lt smalld] at same
    have numbers := congrArg UInt16.toNat (List.singleton_inj.mp same)
    rw [UInt16.toNat_ofNat', UInt16.toNat_ofNat'] at numbers
    omega
  · rw [units16_of_lt smallc, units16_of_ge larged] at same
    simp at same
  · rw [units16_of_ge largec, units16_of_lt smalld] at same
    simp at same
  · rw [units16_of_ge largec, units16_of_ge larged, List.cons.injEq] at same
    have highs := congrArg UInt16.toNat same.1
    have lows := congrArg UInt16.toNat (List.singleton_inj.mp same.2)
    rw [UInt16.toNat_ofNat', UInt16.toNat_ofNat'] at highs lows
    omega

/-! ## Characters -/

/-- A character can be told from its units, in whatever way each of them is spelled. -/
theorem spelled_injective {spell : UInt16 → List UInt8} (length : ∀ u, (spell u).length = 2)
    (inj : Function.Injective spell) : Function.Injective fun c => (units16 c).flatMap spell := by
  intro c d same
  have units := flatMap_injective_of_length (by decide) length inj same
  exact units16_injective units

theorem encodeChar_injective (e : Encoding) : Function.Injective e.encodeChar := by
  cases e with
  | utf8 => exact utf8EncodeChar_injective
  | utf16le =>
      apply spelled_injective (fun _ => rfl)
      intro u v same
      obtain ⟨low, high⟩ : lowByte u = lowByte v ∧ highByte u = highByte v := by simpa using same
      exact unit_injective high low
  | utf16be =>
      apply spelled_injective (fun _ => rfl)
      intro u v same
      obtain ⟨high, low⟩ : highByte u = highByte v ∧ lowByte u = lowByte v := by simpa using same
      exact unit_injective high low

/-- A unit that leads and units that trail are a piece. -/
theorem cons_mem_piece {α : Type} {e : Encoding} {spell : α → List UInt8} {a : α} {as : List α}
    (lead : spell a ∈ e.units fun b => ¬ e.Trails b)
    (trail : ∀ b ∈ as, spell b ∈ e.units e.Trails) :
    (a :: as).flatMap spell ∈ e.piece.language := by
  rw [language_piece, List.flatMap_cons]
  apply Language.append_mem_mul lead
  rw [List.flatMap_def]
  apply Language.join_mem_kstar
  intro x hx
  obtain ⟨b, hb, rfl⟩ := List.mem_map.mp hx
  exact trail b hb

/-- The bytes of a character are a piece. -/
theorem encodeChar_mem_piece (e : Encoding) (c : Char) : e.encodeChar c ∈ e.piece.language := by
  cases e with
  | utf8 =>
      obtain ⟨b, bs, eq, lead, trail⟩ := utf8EncodeChar_eq_cons c
      have spelled : encodeChar utf8 c = (b :: bs).flatMap fun d => [d] := by
        rw [List.flatMap_singleton']
        exact eq
      rw [spelled]
      exact cons_mem_piece ⟨b, rfl, lead⟩ fun d hd => ⟨d, rfl, trail d hd⟩
  | utf16le =>
      obtain ⟨u, us, eq, lead, trail⟩ := units16_eq_cons c
      rw [encodeChar, eq]
      apply cons_mem_piece
      · exact mem_bytesWith_mul.mpr ⟨_, _, rfl, trivial, lead⟩
      · intro v hv
        exact mem_bytesWith_mul.mpr ⟨_, _, rfl, trivial, trail v hv⟩
  | utf16be =>
      obtain ⟨u, us, eq, lead, trail⟩ := units16_eq_cons c
      rw [encodeChar, eq]
      apply cons_mem_piece
      · exact mem_bytesWith_mul.mpr ⟨_, _, rfl, lead, trivial⟩
      · intro v hv
        exact mem_bytesWith_mul.mpr ⟨_, _, rfl, trail v hv, trivial⟩

/-! ## Texts -/

/-- Bytes are cut into pieces in at most one way, also those that encode no text. -/
theorem pieces_unique (e : Encoding) {xs ys : List (List UInt8)}
    (hxs : ∀ x ∈ xs, x ∈ e.piece.language) (hys : ∀ y ∈ ys, y ∈ e.piece.language)
    (same : xs.flatten = ys.flatten) : xs = ys := by
  rw [language_piece] at hxs hys
  exact e.framed.unique hxs hys same

/-- Encoded text is cut into pieces between characters only. -/
theorem aligned (e : Encoding) : Aligned e.encodeChar e.piece.language where
  covers := e.encodeChar_mem_piece
  injective := e.encodeChar_injective
  unique := by
    intro w parts hparts same
    apply e.pieces_unique hparts (map_code_mem e.encodeChar_mem_piece w)
    rw [same, List.flatMap_def]

/-- A text can be told from its bytes. -/
theorem encode_injective (e : Encoding) : Function.Injective e.encode := by
  intro v w same
  exact e.aligned.flatMap_injective same

/-- Encoded text has exactly one factorization into pieces, the encodings of its characters. Both
characters and texts can be told from their bytes. -/
theorem encode_factorization (e : Encoding) :
    (∀ (text : List Char) (parts : List (List UInt8)),
      (∀ x ∈ parts, e.piece.accepts x = true) ∧ parts.flatten = e.encode text ↔
        parts = text.map e.encodeChar) ∧
    Function.Injective e.encodeChar ∧ Function.Injective e.encode := by
  refine ⟨?_, e.encodeChar_injective, e.encode_injective⟩
  intro text parts
  simp only [Regex.accepts_iff]
  exact e.aligned.pieces_iff text parts

end Encoding

/-! ## Encoded regexes -/

namespace Regex

/-- An encoded text matches the encoded regex when the text matches the regex. -/
theorem accepts_encode (r : Regex Char) (e : Encoding) (text : List Char) :
    (r.encode e).accepts (e.encode text) = r.accepts text := by
  rw [Bool.eq_iff_iff, accepts_iff, accepts_iff]
  exact mem_language_substituteWithin e.aligned r text

end Regex

end Residual
