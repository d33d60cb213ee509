import Residual.Lanes.Folding

/-!
# Folding is walking

The plain way through a table replaces the state by its entry in the row of every byte in turn.
`Lanes.walk` goes that way, and stops where a row has no such entry. With vectors there is no
walking: the rows of an input are composed before any state is looked up, in whatever groups, and
the lanes that are no states take part with whatever they hold.

* **one byte** — `Table.Leads.step`: the entry for a state is there, and it is a state;
* **an input** — `Table.Leads.walk_eq_follow`: walking never stops, and stays among the states;
* **both folds** — `folds_walk`: they end where walking ends.
-/

namespace Residual.Lanes

variable {lanes : Lanes} {table : lanes.Table} {count : Nat}

/-- Where walking leads: for every byte, the state is replaced by its entry in the byte's row. -/
def walk (table : lanes.Table) (input : List UInt8) (state : UInt8) : Option UInt8 :=
  input.foldlM (fun s b => (table.row b)[s.toNat]?) state

/-- The first `count` lanes of every row hold numbers below `count`. The others hold anything. -/
def Table.Leads (table : lanes.Table) (count : Nat) : Prop :=
  ∀ (b : UInt8) (s : Nat) (t : UInt8), s < count → (table.row b)[s]? = some t → t.toNat < count

namespace Table.Leads

/-- The entry for a state is there, and it is a state. -/
theorem step (leads : table.Leads count) (le : count ≤ lanes.width) (b : UInt8) {s : UInt8}
    (hs : s.toNat < count) : (table.row b)[s.toNat]? = some (extract (table.row b) s) ∧
      (extract (table.row b) s).toNat < count := by
  have lane : s.toNat < lanes.width := Nat.lt_of_lt_of_le hs le
  have entry : (table.row b)[s.toNat]? = some (extract (table.row b) s) := by
    rw [extract_eq _ lane]
    exact Vector.getElem?_eq_getElem lane
  exact ⟨entry, leads b s.toNat _ hs entry⟩

theorem closed (leads : table.Leads count) (le : count ≤ lanes.width) : table.Closed count := by
  intro b s hs
  exact (leads.step le b hs).2

/-- Walking never stops, and stays among the states. -/
theorem walk_eq_follow (leads : table.Leads count) (le : count ≤ lanes.width) {state : UInt8}
    (h : state.toNat < count) (input : List UInt8) :
    walk table input state = some (follow table input state) ∧
      (follow table input state).toNat < count := by
  induction input generalizing state with
  | nil => exact ⟨rfl, h⟩
  | cons b input ih =>
      obtain ⟨entry, inside⟩ := leads.step le b h
      show ((table.row b)[state.toNat]?.bind fun t => walk table input t) = _ ∧ _
      rw [entry, Option.bind_some]
      exact ih inside

end Table.Leads

/-- Walking a table and both ways of folding it end in the same state, for every kind of lanes that
looks up lanes that exist and every input, whatever stands in the lanes that are no states. -/
theorem folds_walk (lanes : Lanes) (table : lanes.Table) {count : Nat} (le : count ≤ lanes.width)
    (leads : table.Leads count) {start : UInt8} (h : start.toNat < count) (input : List UInt8) :
    ∃ final : UInt8, final.toNat < count ∧ walk table input start = some final ∧
      foldBySevens table input start = final ∧ foldOneByOne table input start = final := by
  obtain ⟨walks, inside⟩ := leads.walk_eq_follow le h input
  obtain ⟨bySevens, oneByOne⟩ := fold_eq_follow le (leads.closed le) h input
  exact ⟨_, inside, walks, bySevens, oneByOne⟩

/-- Three states that a byte moves on by its number, and 255 in the thirteen lanes behind them. -/
def rotation : portable16.Table :=
  Vector.ofFn fun b => Vector.ofFn fun s => if s.val < 3 then UInt8.ofNat ((s + b) % 3) else 255

theorem row_rotation (b : UInt8) {s : Nat} (hs : s < 3) :
    (rotation.row b)[s]? = some (UInt8.ofNat ((s + b.toNat) % 3)) := by
  have lane : s < portable16.width := by
    show s < 16
    omega
  rw [Table.row, rotation, get_ofFn, Vector.getElem?_ofFn, dif_pos lane, if_pos hs]

theorem leads_rotation : rotation.Leads 3 := by
  intro b s t hs entry
  rw [row_rotation b hs] at entry
  rw [← Option.some.inj entry, UInt8.toNat_ofNat']
  omega

/-- Nine bytes, of which two are left when seven have been taken up at once. -/
theorem folds_walk_rotation :
    foldBySevens rotation [1, 1, 1, 1, 1, 1, 1, 1, 2] 0 = 1 ∧
      foldOneByOne rotation [1, 1, 1, 1, 1, 1, 1, 1, 2] 0 = 1 := by
  obtain ⟨final, -, walks, bySevens, oneByOne⟩ :=
    folds_walk portable16 rotation (show 3 ≤ 16 by decide) leads_rotation
      (show (0 : UInt8).toNat < 3 by decide) [1, 1, 1, 1, 1, 1, 1, 1, 2]
  have value : walk rotation [1, 1, 1, 1, 1, 1, 1, 1, 2] 0 = some 1 := by
    simp [walk, row_rotation]
  obtain rfl := Option.some.inj (value.symm.trans walks)
  exact ⟨bySevens, oneByOne⟩

end Residual.Lanes
