/-!
# Vectors of byte lanes

A vector of lanes holds one byte per lane. Its one operation of interest is the shuffle, which
builds a vector by looking up every lane of an index vector in another vector. When lane `i` of a
vector holds the state that state `i` leads to, shuffling composes transitions.

`Lanes` is any kind of vectors whose shuffle finds the lanes that exist. What it makes of other
indices differs: there are plain vectors of 16 and 32 lanes and two kinds of vector registers.
-/

namespace Residual

/-- A kind of vectors. -/
structure Lanes where
  /-- The number of lanes. -/
  width : Nat
  /-- The name of the instruction set. -/
  name : String
  /-- There is a lane. -/
  width_pos : 0 < width
  /-- A byte can number the lanes. -/
  width_le : width ≤ 256
  /-- The vector whose lanes are looked up in `row` by the lanes of `indices`. -/
  select : (row indices : Vector UInt8 width) → Vector UInt8 width
  /-- Lanes that exist are found. -/
  get_select : ∀ row indices (i : Fin width) (h : (indices.get i).toNat < width),
    (select row indices).get i = row.get ⟨(indices.get i).toNat, h⟩

namespace Lanes

/-- A vector with one byte for every lane. -/
abbrev Row (lanes : Lanes) : Type :=
  Vector UInt8 lanes.width

/-- The vector whose lane `i` holds `i`. -/
def identity (lanes : Lanes) : lanes.Row :=
  Vector.ofFn fun i => UInt8.ofNat i

/-- The lane of a number, which counts lanes over and over. -/
def extract {lanes : Lanes} (row : lanes.Row) (lane : UInt8) : UInt8 :=
  row.get ⟨lane.toNat % lanes.width, Nat.mod_lt _ lanes.width_pos⟩

/-- The vector whose lanes are looked up in `row` by the lanes of `indices`. -/
def shuffle {lanes : Lanes} (row indices : lanes.Row) : lanes.Row :=
  lanes.select row indices

/-! ## Kinds of vectors -/

/-- Vectors that look up every lane of the index vector in the same way. -/
def ofLookup (width : Nat) (name : String) (width_pos : 0 < width) (width_le : width ≤ 256)
    (lookup : Vector UInt8 width → UInt8 → UInt8)
    (found : ∀ row (index : UInt8) (h : index.toNat < width),
      lookup row index = row.get ⟨index.toNat, h⟩) : Lanes where
  width := width
  name := name
  width_pos := width_pos
  width_le := width_le
  select row indices := indices.map (lookup row)
  get_select row indices i h := by
    rw [← found row (indices.get i) h]
    exact Vector.getElem_map _ i.isLt

/-- Looks up the lane of a number, counting sixteen lanes over and over from the lane `first`. -/
def lookup16 {width : Nat} (first : Nat) (fits : first + 16 ≤ width) (row : Vector UInt8 width)
    (index : UInt8) : UInt8 :=
  row.get ⟨first + index.toNat % 16, by omega⟩

theorem lookup16_eq {width first : Nat} (fits : first + 16 ≤ width) (row : Vector UInt8 width)
    {index : UInt8} (inside : index.toNat < width) (half : first + index.toNat % 16 = index.toNat) :
    lookup16 first fits row index = row.get ⟨index.toNat, inside⟩ := by
  unfold lookup16
  congr 1
  exact Fin.ext half

/-- Plain vectors of 16 lanes, which count lanes over and over. -/
def portable16 : Lanes :=
  ofLookup 16 "portable" (Nat.succ_pos 15) (by decide)
    (fun row index => lookup16 0 (by decide) row index)
    (fun row index h => lookup16_eq _ row h (by omega))

/-- Plain vectors of 32 lanes, which count lanes over and over. -/
def portable32 : Lanes :=
  ofLookup 32 "portable" (Nat.succ_pos 31) (by decide)
    (fun row index => row.get ⟨index.toNat % 32, Nat.mod_lt _ (by decide)⟩)
    (fun row index h => by congr 1; exact Fin.ext (Nat.mod_eq_of_lt h))

/-- Registers of 16 lanes with one byte shuffle, which gives zero for an index above 127. -/
def ssse3 : Lanes :=
  ofLookup 16 "SSSE3" (Nat.succ_pos 15) (by decide)
    (fun row index => if index < 128 then lookup16 0 (by decide) row index else 0)
    (fun row index h => by
      have low : index < 128 := UInt8.lt_iff_toNat_lt.mpr (Nat.lt_of_lt_of_le h (by decide))
      rw [if_pos low]
      exact lookup16_eq _ row h (by omega))

/-- Registers of two halves of 16 lanes, each with a byte shuffle of its own: an index is looked up
in both halves, and the answer of the upper half counts for every index from 16 to 127. -/
def avx2 : Lanes :=
  ofLookup 32 "AVX2" (Nat.succ_pos 31) (by decide)
    (fun row index =>
      if index < 128 then
        if index < 16 then lookup16 0 (by decide) row index
        else lookup16 16 (by decide) row index
      else 0)
    (fun row index h => by
      have low : index < 128 := UInt8.lt_iff_toNat_lt.mpr (Nat.lt_of_lt_of_le h (by decide))
      rw [if_pos low]
      by_cases half : index < 16
      · rw [if_pos half]
        have half : index.toNat < 16 := half
        exact lookup16_eq _ row h (by omega)
      · rw [if_neg half]
        have half : ¬ index.toNat < 16 := half
        exact lookup16_eq _ row h (by omega))

/-! ## Folding a table over an input

A table has a row for every byte. Folding it over an input composes the rows of the bytes in order
and follows the composition from a start lane.
-/

/-- A row for every byte. -/
abbrev Table (lanes : Lanes) : Type :=
  Vector lanes.Row 256

/-- The row of a byte. -/
def Table.row {lanes : Lanes} (table : lanes.Table) (b : UInt8) : lanes.Row :=
  table.get ⟨b.toNat, b.toNat_lt⟩

/-- The composition of an input's rows after `acc`, one byte at a time. -/
def composeOneByOne {lanes : Lanes} (table : lanes.Table) (acc : lanes.Row) (input : List UInt8) :
    lanes.Row :=
  input.foldl (fun acc b => shuffle (table.row b) acc) acc

/-- The composition of an input's rows after `acc`, seven bytes at a time: the rows of seven bytes
are composed in pairs before they meet the running vector, which waits for three shuffles only. -/
def composeBySevens {lanes : Lanes} (table : lanes.Table) (acc : lanes.Row) :
    List UInt8 → lanes.Row
  | b1 :: b2 :: b3 :: b4 :: b5 :: b6 :: b7 :: rest =>
      let t01 := shuffle (table.row b1) acc
      let t23 := shuffle (table.row b3) (table.row b2)
      let t45 := shuffle (table.row b5) (table.row b4)
      let t67 := shuffle (table.row b7) (table.row b6)
      let t0123 := shuffle t23 t01
      let t4567 := shuffle t67 t45
      composeBySevens table (shuffle t4567 t0123) rest
  | rest => composeOneByOne table acc rest

/-- Where an input leads from a start lane, composing seven bytes at a time. -/
def foldBySevens {lanes : Lanes} (table : lanes.Table) (input : List UInt8) (start : UInt8) :
    UInt8 :=
  extract (composeBySevens table lanes.identity input) start

/-- Where an input leads from a start lane, composing one byte at a time. -/
def foldOneByOne {lanes : Lanes} (table : lanes.Table) (input : List UInt8) (start : UInt8) :
    UInt8 :=
  extract (composeOneByOne table lanes.identity input) start

end Lanes

end Residual
