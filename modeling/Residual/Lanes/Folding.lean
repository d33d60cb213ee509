import Residual.Lanes

/-!
# Lanes that fold tables

Folding a table over an input follows the rows of its bytes one after another (`Lanes.follow`), as
long as the lanes of the rows lead to lanes. Composing rows by shuffles comes to the same, in
whatever groups the rows are composed:

* `shuffle_tabulates` — shuffling composes;
* `fold_eq_follow` — so both folds of `Residual.Lanes` follow the table.

`FoldingLanes` are lanes with any folds that do this. `Lanes.folding` are those with the two folds
by shuffles.
-/

namespace Residual

namespace Lanes

variable {lanes : Lanes}

/-- Where an input leads from a lane when the rows of its bytes are followed one after another. -/
def follow (table : lanes.Table) (input : List UInt8) (lane : UInt8) : UInt8 :=
  input.foldl (fun lane b => extract (table.row b) lane) lane

/-- In every row the first `count` lanes lead to such lanes. -/
def Table.Closed (table : lanes.Table) (count : Nat) : Prop :=
  ∀ (b lane : UInt8), lane.toNat < count → (extract (table.row b) lane).toNat < count

/-! ## Rows as functions -/

theorem extract_eq (row : lanes.Row) {lane : UInt8} (h : lane.toNat < lanes.width) :
    extract row lane = row.get ⟨lane.toNat, h⟩ := by
  unfold extract
  congr 1
  exact Fin.ext (Nat.mod_eq_of_lt h)

theorem toNat_ofNat_lane {s : Nat} (hs : s < lanes.width) : (UInt8.ofNat s).toNat = s := by
  have := lanes.width_le
  rw [UInt8.toNat_ofNat']
  omega

theorem get_ofFn {α : Type} {n : Nat} (f : Fin n → α) (i : Fin n) : (Vector.ofFn f).get i = f i :=
  Vector.getElem_ofFn i.isLt

theorem extract_ofFn (f : Fin lanes.width → UInt8) {lane : UInt8} (h : lane.toNat < lanes.width) :
    extract (Vector.ofFn f : lanes.Row) lane = f ⟨lane.toNat, h⟩ := by
  rw [extract_eq _ h, get_ofFn]

/-- On its first `count` lanes the row has the values of `f`, which are such lanes. -/
def Row.Tabulates (row : lanes.Row) (count : Nat) (f : UInt8 → UInt8) : Prop :=
  ∀ lane : UInt8, lane.toNat < count → (f lane).toNat < count ∧ extract row lane = f lane

theorem identity_tabulates {count : Nat} (le : count ≤ lanes.width) :
    lanes.identity.Tabulates count id := by
  intro lane h
  refine ⟨h, ?_⟩
  rw [identity, extract_ofFn _ (Nat.lt_of_lt_of_le h le)]
  exact UInt8.ofNat_toNat

/-- Shuffling composes, whatever the shuffle makes of lanes that do not exist. -/
theorem shuffle_tabulates {row indices : lanes.Row} {count : Nat} {f g : UInt8 → UInt8}
    (le : count ≤ lanes.width) (hf : row.Tabulates count f) (hg : indices.Tabulates count g) :
    (shuffle row indices).Tabulates count (f ∘ g) := by
  intro lane h
  obtain ⟨inside, index⟩ := hg lane h
  obtain ⟨target, value⟩ := hf (g lane) inside
  have lane_lt : lane.toNat < lanes.width := Nat.lt_of_lt_of_le h le
  have index_lt : (g lane).toNat < lanes.width := Nat.lt_of_lt_of_le inside le
  have index : indices.get ⟨lane.toNat, lane_lt⟩ = g lane := by
    rw [← extract_eq indices lane_lt, index]
  refine ⟨target, ?_⟩
  calc extract (shuffle row indices) lane
    _ = (lanes.select row indices).get ⟨lane.toNat, lane_lt⟩ := extract_eq _ lane_lt
    _ = row.get ⟨(indices.get ⟨lane.toNat, lane_lt⟩).toNat, by rwa [index]⟩ :=
      lanes.get_select row indices _ _
    _ = row.get ⟨(g lane).toNat, index_lt⟩ := by
      congr 1
      exact Fin.ext (congrArg UInt8.toNat index)
    _ = f (g lane) := by rw [← extract_eq row index_lt, value]

/-! ## Folding -/

variable {table : lanes.Table} {count : Nat}

theorem Table.Closed.row_tabulates (closed : table.Closed count) (b : UInt8) :
    (table.row b).Tabulates count (extract (table.row b)) := by
  intro lane h
  exact ⟨closed b lane h, rfl⟩

theorem composeOneByOne_tabulates (le : count ≤ lanes.width) (closed : table.Closed count)
    {acc : lanes.Row} {g : UInt8 → UInt8} (hacc : acc.Tabulates count g) (input : List UInt8) :
    (composeOneByOne table acc input).Tabulates count (follow table input ∘ g) := by
  induction input generalizing acc g with
  | nil => exact hacc
  | cons b input ih => exact ih (shuffle_tabulates le (closed.row_tabulates b) hacc)

/-- Composition associates, so the rows of seven bytes may be composed before the others. -/
theorem composeBySevens_tabulates (le : count ≤ lanes.width) (closed : table.Closed count)
    {acc : lanes.Row} {g : UInt8 → UInt8} (hacc : acc.Tabulates count g) (input : List UInt8) :
    (composeBySevens table acc input).Tabulates count (follow table input ∘ g) := by
  have row := closed.row_tabulates
  fun_induction composeBySevens table acc input generalizing g with
  -- seven bytes are taken up at once, and at the end fewer than seven are left
  | case1 acc b1 b2 b3 b4 b5 b6 b7 rest t01 t23 t45 t67 t0123 t4567 =>
      rename_i ih
      have h01 := shuffle_tabulates le (row b1) hacc
      have h23 := shuffle_tabulates le (row b3) (row b2)
      have h45 := shuffle_tabulates le (row b5) (row b4)
      have h67 := shuffle_tabulates le (row b7) (row b6)
      have h0123 := shuffle_tabulates le h23 h01
      have h4567 := shuffle_tabulates le h67 h45
      have seven := shuffle_tabulates le h4567 h0123
      exact ih seven
  | case2 acc rest => exact composeOneByOne_tabulates le closed hacc rest

/-- Both folds follow the table byte by byte. -/
theorem fold_eq_follow (le : count ≤ lanes.width) (closed : table.Closed count) {start : UInt8}
    (hstart : start.toNat < count) (input : List UInt8) :
    foldBySevens table input start = follow table input start ∧
      foldOneByOne table input start = follow table input start :=
  ⟨(composeBySevens_tabulates le closed (identity_tabulates le) input start hstart).2,
    (composeOneByOne_tabulates le closed (identity_tabulates le) input start hstart).2⟩

end Lanes

/-- Lanes with two folds of tables over inputs. -/
structure FoldingLanes extends Lanes where
  /-- Where an input leads from a lane. This is the fold that matches. -/
  fold : toLanes.Table → List UInt8 → UInt8 → UInt8
  /-- Where an input leads from a lane, one byte at a time. -/
  foldStepwise : toLanes.Table → List UInt8 → UInt8 → UInt8
  fold_eq : ∀ (table : toLanes.Table) (input : List UInt8) (start : UInt8), table.Closed width →
    start.toNat < width → fold table input start = Lanes.follow table input start
  foldStepwise_eq : ∀ (table : toLanes.Table) (input : List UInt8) (start : UInt8),
    table.Closed width → start.toNat < width →
    foldStepwise table input start = Lanes.follow table input start

/-- Lanes that fold tables by shuffles. -/
def Lanes.folding (lanes : Lanes) : FoldingLanes where
  toLanes := lanes
  fold := foldBySevens
  foldStepwise := foldOneByOne
  fold_eq _ input _ closed inside := (fold_eq_follow (Nat.le_refl _) closed inside input).1
  foldStepwise_eq _ input _ closed inside := (fold_eq_follow (Nat.le_refl _) closed inside input).2

instance : Coe Lanes FoldingLanes :=
  ⟨Lanes.folding⟩

end Residual
