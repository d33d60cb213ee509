import Residual.Proofs.Automaton.Run

/-!
# Queries about states

State numbers and addresses are words, and any word may be asked for:

* **addresses** — `address?_eq_some`: an entry has an address if that fits into a word, and
  `targets_size_le`: what has an address in the row of no state lies behind the table;
* **states** — `nextState_of_lt` and `isAccepting_of_lt`: queries about a state are answered, if the
  table can be addressed at all;
* **other numbers** — `missing_state_unanswered`: queries about a number that is no state are never
  answered, not even where the address comes back into the table when it wraps
  (`address?_of_wrapped`).
-/

namespace Residual.Dfa

variable {σ : Type} [Symbol σ] {d : Dfa σ} {s : UInt64} {c : σ} {column : Nat}

/-! ## Addresses -/

theorem address?_eq_some {address : UInt64} :
    d.address? s column = some address ↔ address.toNat = s.toNat * d.alphabet.size + column := by
  unfold address?
  dsimp only
  split
  · next fits =>
    rw [Option.some_inj, ← UInt64.toNat_inj, UInt64.toNat_ofNat_of_lt' fits]
    exact eq_comm
  · next large =>
    refine iff_of_false nofun fun here => large ?_
    rw [← here]
    exact address.toNat_lt_size

/-- An entry in the row of a number that is no state lies behind the table. -/
theorem targets_size_le (missing : d.stateCount ≤ s.toNat) :
    d.targets.size ≤ s.toNat * d.alphabet.size + column := by
  rw [d.targets_size, ← stateCount]
  exact Nat.le_add_right_of_le (Nat.mul_le_mul_right _ missing)

/-- The address that is computed without regard to the size of a word. -/
def wrappedAddress (d : Dfa σ) (s : UInt64) (column : Nat) : UInt64 :=
  s * UInt64.ofNat d.alphabet.size + UInt64.ofNat column

theorem toNat_wrappedAddress : (d.wrappedAddress s column).toNat =
    (s.toNat * d.alphabet.size + column) % UInt64.size := by
  simp [wrappedAddress, Nat.add_mod, Nat.mul_mod]

/-- An address that fits into a word is computed in words. -/
theorem eq_wrappedAddress {address : UInt64} (h : d.address? s column = some address) :
    address = d.wrappedAddress s column := by
  have fits := address.toNat_lt_size
  rw [address?_eq_some] at h
  rw [← UInt64.toNat_inj, toNat_wrappedAddress, ← h, Nat.mod_eq_of_lt fits]

/-- A number that is no state has no address, if its wrapped address comes back into the table. -/
theorem address?_of_wrapped (missing : d.stateCount ≤ s.toNat)
    (inside : (d.wrappedAddress s column).toNat < d.targets.size) :
    d.address? s column = none := by
  cases found : d.address? s column with
  | none => rfl
  | some address =>
      have behind : d.targets.size ≤ s.toNat * d.alphabet.size + column := targets_size_le missing
      rw [← eq_wrappedAddress found, address?_eq_some.mp found] at inside
      omega

/-! ## States -/

/-- A successor is found where the address says. -/
theorem nextState_of_some {t : Nat} (found : d.alphabet.column? c = some column)
    (entry : ((d.address? s column).bind fun address => d.targets[address.toNat]?) = some t) :
    d.nextState s c = .ok (some t) := by
  simp only [nextState, found, entry]

/-- If the address is none of the table, there is no state to ask about. -/
theorem nextState_of_none (found : d.alphabet.column? c = some column)
    (missing : ((d.address? s column).bind fun address => d.targets[address.toNat]?) = none) :
    d.nextState s c = .error ⟨s⟩ := by
  simp only [nextState, found, missing]

/-- Queries about a state give its successors, if the table can be addressed. -/
theorem nextState_of_lt (addressable : d.targets.size ≤ UInt64.size)
    (hs : s.toNat < d.stateCount) (c : σ) : d.nextState s c = .ok (d.next s.toNat c) := by
  cases found : d.alphabet.column? c with
  | none => rw [nextState, next, found, Option.bind_none]
  | some column =>
      have inside := place_lt hs (Alphabet.column?_lt found)
      have fits := Nat.lt_of_lt_of_le inside addressable
      have address : d.address? s column =
          some (UInt64.ofNat (s.toNat * d.alphabet.size + column)) :=
        address?_eq_some.mpr (UInt64.toNat_ofNat_of_lt' fits)
      rw [next, found, Option.bind_some, Array.getElem?_eq_getElem inside]
      apply nextState_of_some found
      rw [address, Option.bind_some, UInt64.toNat_ofNat_of_lt' fits,
        Array.getElem?_eq_getElem inside]

theorem isAccepting_of_lt (hs : s.toNat < d.stateCount) :
    d.isAccepting s = .ok (d.accepts s.toNat) := by
  rw [isAccepting, Array.getElem?_eq_getElem hs, accepts, Array.getD_eq_getD_getElem?,
    Array.getElem?_eq_getElem hs, Option.getD_some]

/-! ## Other numbers -/

theorem nextState_of_le (missing : d.stateCount ≤ s.toNat) (hc : c ∈ d.alphabet.symbols) :
    d.nextState s c = .error ⟨s⟩ := by
  cases found : d.alphabet.column? c with
  | none => exact absurd hc (Alphabet.column?_eq_none.mp found)
  | some column =>
      apply nextState_of_none found
      rw [Option.bind_eq_none_iff]
      intro address here
      rw [Array.getElem?_eq_none_iff, address?_eq_some.mp here]
      exact targets_size_le missing

theorem isAccepting_of_le (missing : d.stateCount ≤ s.toNat) : d.isAccepting s = .error ⟨s⟩ := by
  rw [isAccepting, Array.getElem?_eq_none missing]

end Residual.Dfa
