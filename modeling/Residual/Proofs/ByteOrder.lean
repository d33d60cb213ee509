import Mathlib.Algebra.Group.Nat.Even
import Residual.Proofs.Encoding

/-!
# Byte orders

The two kinds of UTF-16 differ in the order of the bytes of a unit, and in nothing else. `swapPairs`
exchanges the bytes of all units, whether or not they are units of encoded characters:

* **operations** — `Mirrored`: two languages hold the same words of whole units, one in either
  order. Products, closures, connectives and complements among sequences of pieces keep it;
* **encodings** — `mirrored_piece`: the pieces of the two kinds are mirrored;
* **regexes** — `Regex.encode_swapPairs`: what an encoded regex does with any byte string it does
  with the string of the other order.
-/

namespace Residual

open Computability

/-! ## Pairs -/

/-- A word with the two symbols of every pair exchanged. A symbol without a partner stays last. -/
def swapPairs {α : Type} : List α → List α
  | a :: b :: rest => b :: a :: swapPairs rest
  | rest => rest

section Pairs

variable {α : Type}

@[simp] theorem length_swapPairs : ∀ x : List α, (swapPairs x).length = x.length
  | [] => rfl
  | [_] => rfl
  | _ :: _ :: rest => congrArg (· + 2) (length_swapPairs rest)

@[simp] theorem swapPairs_swapPairs : ∀ x : List α, swapPairs (swapPairs x) = x
  | [] => rfl
  | [_] => rfl
  | a :: b :: rest => congrArg (a :: b :: ·) (swapPairs_swapPairs rest)

/-- Pairs are exchanged on both sides of a cut between pairs. -/
theorem swapPairs_append {x : List α} (even : Even x.length) (y : List α) :
    swapPairs (x ++ y) = swapPairs x ++ swapPairs y := by
  fun_induction swapPairs x with
  | case1 a b rest ih =>
      have tail : Even rest.length := by
        rw [List.length_cons, List.length_cons, Nat.even_add_one, Nat.even_add_one] at even
        exact Classical.not_not.mp even
      show b :: a :: swapPairs (rest ++ y) = _
      rw [ih tail]
      rfl
  | case2 rest short =>
      match rest with
      | [] => rfl
      | [a] => exact absurd even (by simp)
      | a :: b :: rest => exact absurd rfl (short a b rest)

/-! Words that are spelled by words of whole pairs. -/

variable {β : Type} {spell spell' : β → List α}

theorem even_length_flatMap (even : ∀ b, Even (spell b).length) (w : List β) :
    Even (w.flatMap spell).length := by
  induction w with
  | nil => exact Even.zero
  | cons b w ih =>
      rw [List.flatMap_cons, List.length_append]
      exact (even b).add ih

theorem swapPairs_flatMap (even : ∀ b, Even (spell b).length)
    (swap : ∀ b, swapPairs (spell b) = spell' b) (w : List β) :
    swapPairs (w.flatMap spell) = w.flatMap spell' := by
  induction w with
  | nil => rfl
  | cons b w ih => rw [List.flatMap_cons, List.flatMap_cons, swapPairs_append (even b), swap, ih]

end Pairs

/-! ## Mirrored languages -/

/-- The words of one language have whole pairs, and once these are exchanged they are words of
another. -/
def Swaps (L M : Language UInt8) : Prop :=
  ∀ x ∈ L, Even x.length ∧ swapPairs x ∈ M

namespace Swaps

variable {L L' M M' : Language UInt8}

theorem mul (h : Swaps L M) (h' : Swaps L' M') : Swaps (L * L') (M * M') := by
  rintro _ ⟨x, hx, y, hy, rfl⟩
  obtain ⟨evenx, swapx⟩ := h x hx
  obtain ⟨eveny, swapy⟩ := h' y hy
  constructor
  · show Even (x ++ y).length
    rw [List.length_append]
    exact evenx.add eveny
  · show swapPairs (x ++ y) ∈ M * M'
    rw [swapPairs_append evenx]
    exact Language.append_mem_mul swapx swapy

theorem kstar (h : Swaps L M) : Swaps L∗ M∗ := by
  intro x hx
  obtain ⟨parts, rfl, hparts⟩ := Language.mem_kstar.mp hx
  clear hx
  induction parts with
  | nil => exact ⟨Even.zero, Language.nil_mem_kstar M⟩
  | cons y parts ih =>
      have tail := ih fun z hz => hparts z (List.mem_cons_of_mem _ hz)
      have first := h y (hparts y (List.mem_cons_self ..))
      rw [List.flatten_cons, List.length_append, swapPairs_append first.1]
      refine ⟨first.1.add tail.1, ?_⟩
      rw [← Language.one_add_self_mul_kstar_eq_kstar]
      exact .inr (Language.append_mem_mul first.2 tail.2)

/-- A complement turns the exchange around, so that both directions are needed. -/
theorem compl_inf {P Q : Language UInt8} (back : Swaps M L) (pieces : Swaps P Q) :
    Swaps (Lᶜ ⊓ P) (Mᶜ ⊓ Q) := by
  rintro x ⟨outside, inside⟩
  obtain ⟨even, swapped⟩ := pieces x inside
  refine ⟨even, ?_, swapped⟩
  intro member
  have again := (back _ member).2
  rw [swapPairs_swapPairs] at again
  exact outside again

end Swaps

/-- Two languages hold the same words of whole pairs, but for the order in every pair. -/
structure Mirrored (L M : Language UInt8) : Prop where
  forth : Swaps L M
  back : Swaps M L

namespace Mirrored

variable {L L' M M' : Language UInt8}

theorem mul (h : Mirrored L M) (h' : Mirrored L' M') : Mirrored (L * L') (M * M') :=
  ⟨h.forth.mul h'.forth, h.back.mul h'.back⟩

theorem kstar (h : Mirrored L M) : Mirrored L∗ M∗ :=
  ⟨h.forth.kstar, h.back.kstar⟩

theorem compl_inf {P Q : Language UInt8} (h : Mirrored L M) (pieces : Mirrored P Q) :
    Mirrored (Lᶜ ⊓ P) (Mᶜ ⊓ Q) :=
  ⟨h.back.compl_inf pieces.forth, h.forth.compl_inf pieces.back⟩

/-- A single word of whole pairs. -/
theorem singleton {x : List UInt8} (even : Even x.length) :
    Mirrored ({x} : Language UInt8) ({swapPairs x} : Language UInt8) := by
  constructor
  · rintro _ rfl
    exact ⟨even, rfl⟩
  · rintro _ rfl
    exact ⟨by rwa [length_swapPairs], swapPairs_swapPairs x⟩

/-- A word of whole pairs is in one language when the word of the other order is in the other. -/
theorem mem_iff (h : Mirrored L M) (x : List UInt8) : x ∈ L ↔ swapPairs x ∈ M := by
  constructor
  · intro member
    exact (h.forth x member).2
  · intro member
    have again := (h.back _ member).2
    rwa [swapPairs_swapPairs] at again

end Mirrored

/-- A connective of mirrored languages, of which there is at least one. -/
theorem Swaps.holds {α : Type} {op : Connective} {as : List α} (nonempty : as ≠ [])
    {L M : α → Language UInt8} (h : ∀ a ∈ as, Swaps (L a) (M a)) {x : List UInt8}
    (hx : op.Holds (x ∈ L ·) as) : Even x.length ∧ op.Holds (swapPairs x ∈ M ·) as := by
  cases op with
  | or =>
      obtain ⟨a, mem, ha⟩ := hx
      obtain ⟨even, swapped⟩ := h a mem x ha
      exact ⟨even, a, mem, swapped⟩
  | and =>
      obtain ⟨a, mem⟩ := List.exists_mem_of_ne_nil as nonempty
      refine ⟨(h a mem x (hx a mem)).1, ?_⟩
      intro b mem
      exact (h b mem x (hx b mem)).2

/-! ## Substitution -/

namespace Substitution

variable {σ : Type} [Symbol σ] {code code' : σ → List UInt8} {piece piece' : Regex UInt8}

/-- Two substitutions by mirrored code words among mirrored pieces make mirrored regexes. -/
theorem mirrored_within (even : ∀ c, Even (code c).length)
    (swap : ∀ c, swapPairs (code c) = code' c)
    (pieces : Mirrored piece.language piece'.language) {t : Tree σ} (ht : t.Canonical) :
    Mirrored ((within code piece).apply t).language ((within code' piece').apply t).language := by
  have word (w : List σ) : Mirrored (Regex.word (w.flatMap code)).language
      (Regex.word (w.flatMap code')).language := by
    have single := Mirrored.singleton (even_length_flatMap even w)
    rw [swapPairs_flatMap even swap] at single
    have language (x : List UInt8) : (Regex.word x).language = ({x} : Language UInt8) :=
      Language.ext fun _ => Regex.mem_language_word
    rwa [language, language]
  induction ht with
  | single c =>
      have one := word [c]
      rwa [List.flatMap_singleton, List.flatMap_singleton] at one
  | @block cs _ => exact word cs
  | any => exact pieces
  | fail =>
      rw [apply_fail, apply_fail, Regex.language_fail]
      exact ⟨fun x hx => absurd hx (Language.notMem_zero x),
        fun x hx => absurd hx (Language.notMem_zero x)⟩
  | closure _ _ ih =>
      rw [apply_closure, apply_closure, Regex.language_star, Regex.language_star]
      exact ih.kstar
  | negation _ _ ih =>
      rw [apply_negation, apply_negation]
      show Mirrored ((Regex.complement _).and piece.star).language
        ((Regex.complement _).and piece'.star).language
      rw [Regex.language_and, Regex.language_and, Regex.language_complement,
        Regex.language_complement, Regex.language_star, Regex.language_star]
      exact ih.compl_inf pieces.kstar
  | sequence _ _ _ _ _ ih ih' =>
      rw [apply_sequence, apply_sequence, Regex.language_andThen, Regex.language_andThen]
      exact ih.mul ih'
  | @join op members _ _ _ several ih =>
      have nonempty : members ≠ [] := by
        rintro rfl
        simp at several
      have holds (f : Substitution σ UInt8) (x : List UInt8) :
          x ∈ (f.apply (.join op members)).language ↔
            op.Holds (fun t => x ∈ (f.apply t).language) members := by
        rw [apply_join, Regex.mem_language_combine, Connective.holds_map]
      constructor
      · intro x hx
        rw [holds] at hx ⊢
        exact Swaps.holds nonempty (fun t mem => (ih t mem).forth) hx
      · intro x hx
        rw [holds] at hx ⊢
        exact Swaps.holds nonempty (fun t mem => (ih t mem).back) hx

end Substitution

/-! ## UTF-16 -/

namespace Encoding

theorem even_length_encodeChar (c : Char) : Even (utf16le.encodeChar c).length := by
  rw [encodeChar]
  exact even_length_flatMap (fun _ => even_two) (units16 c)

/-- The units of a character, in one order and in the other. -/
theorem swapPairs_encodeChar (c : Char) :
    swapPairs (utf16le.encodeChar c) = utf16be.encodeChar c := by
  rw [encodeChar, encodeChar]
  exact swapPairs_flatMap (fun _ => even_two) (fun _ => rfl) (units16 c)

/-- The telling byte of a unit stands second in one order and first in the other. -/
theorem mirrored_units (p : UInt8 → Prop) : Mirrored (utf16le.units p) (utf16be.units p) := by
  constructor
  · intro x hx
    obtain ⟨a, b, rfl, -, hb⟩ := mem_bytesWith_mul.mp hx
    exact ⟨even_two, mem_bytesWith_mul.mpr ⟨b, a, rfl, hb, trivial⟩⟩
  · intro x hx
    obtain ⟨a, b, rfl, ha, -⟩ := mem_bytesWith_mul.mp hx
    exact ⟨even_two, mem_bytesWith_mul.mpr ⟨b, a, rfl, trivial, ha⟩⟩

theorem mirrored_piece : Mirrored utf16le.piece.language utf16be.piece.language := by
  rw [language_piece, language_piece]
  exact (mirrored_units _).mul (mirrored_units _).kstar

end Encoding

namespace Regex

theorem mirrored_encode (r : Regex Char) :
    Mirrored (r.encode .utf16le).language (r.encode .utf16be).language :=
  Substitution.mirrored_within Encoding.even_length_encodeChar Encoding.swapPairs_encodeChar
    Encoding.mirrored_piece r.canonical

/-- The two byte orders agree on all byte strings, those that encode no text among them. A string of
half a unit matches in neither, and any other matches in one order when its mirror image matches in
the other. -/
theorem encode_swapPairs (r : Regex Char) (bytes : List UInt8) :
    (Odd bytes.length → (r.encode .utf16le).accepts bytes = false ∧
      (r.encode .utf16be).accepts bytes = false) ∧
    (Even bytes.length →
      (r.encode .utf16le).accepts bytes = (r.encode .utf16be).accepts (swapPairs bytes)) := by
  have mirrored := r.mirrored_encode
  constructor
  · intro odd
    have uneven : ¬ Even bytes.length := Nat.not_even_iff_odd.mpr odd
    rw [Bool.eq_false_iff, Bool.eq_false_iff, ne_eq, ne_eq, accepts_iff, accepts_iff]
    exact ⟨fun member => uneven (mirrored.forth _ member).1,
      fun member => uneven (mirrored.back _ member).1⟩
  · intro _
    rw [Bool.eq_iff_iff, accepts_iff, accepts_iff]
    exact mirrored.mem_iff bytes

/-- A first surrogate without a second is no character, and so it is none that is ruled out. -/
theorem encode_swapPairs_surrogate :
    ((single 'a').complement.encode .utf16le).accepts [0x00, 0xD8] =
      ((single 'a').complement.encode .utf16be).accepts [0xD8, 0x00] ∧
    ((single 'a').complement.encode .utf16le).accepts [0x00, 0xD8, 0x61] = false :=
  ⟨((single 'a').complement.encode_swapPairs [0x00, 0xD8]).2 (by decide),
    (((single 'a').complement.encode_swapPairs [0x00, 0xD8, 0x61]).1 (by decide)).1⟩

end Regex

end Residual
