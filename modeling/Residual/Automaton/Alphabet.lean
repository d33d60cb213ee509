import Std.Data.HashMap
import Residual.Symbol

/-!
# Alphabets

The finite alphabet of an automaton: distinct symbols in a fixed order. The position of a symbol is
its column in the transition table.
-/

namespace Residual

/-- Distinct symbols in a fixed order. -/
structure Alphabet (σ : Type) [Symbol σ] where
  /-- The symbols in order. -/
  symbols : Array σ
  /-- The position of every symbol, by its code. -/
  columns : Std.HashMap Nat Nat
  columns_eq_some : ∀ c i, columns[Symbol.code c]? = some i ↔ symbols[i]? = some c

namespace Alphabet

variable {σ : Type} [Symbol σ]

/-- The alphabet without symbols. -/
def empty : Alphabet σ := ⟨#[], ∅, by simp⟩

/-- The number of symbols. -/
def size (a : Alphabet σ) : Nat :=
  a.symbols.size

/-- The position of a symbol, if it is in the alphabet. -/
def column? (a : Alphabet σ) (c : σ) : Option Nat :=
  a.columns[Symbol.code c]?

theorem column?_eq_some {a : Alphabet σ} {c : σ} {i : Nat} :
    a.column? c = some i ↔ a.symbols[i]? = some c :=
  a.columns_eq_some c i

theorem column?_lt {a : Alphabet σ} {c : σ} {i : Nat} (h : a.column? c = some i) : i < a.size :=
  (Array.getElem?_eq_some_iff.1 (column?_eq_some.1 h)).1

/-- The symbol is in the alphabet. -/
def contains (a : Alphabet σ) (c : σ) : Bool :=
  (a.column? c).isSome

/-- The alphabet with one more symbol at its end. -/
def push : (a : Alphabet σ) → (c : σ) → (new : a.column? c = none) → Alphabet σ
  | ⟨symbols, columns, h⟩, c, new =>
    { symbols := symbols.push c
      columns := columns.insert (Symbol.code c) symbols.size
      columns_eq_some d i := by
        have old := h d i
        rw [Std.HashMap.getElem?_insert, Array.getElem?_push]
        simp only [column?] at new
        by_cases eq : d = c
        · grind
        · have : Symbol.code c ≠ Symbol.code d := fun same => eq (Symbol.code_inj.1 same.symm)
          grind }

/-- The alphabet with one more symbol at its end, unless it has the symbol already. -/
def insert (a : Alphabet σ) (c : σ) : Alphabet σ :=
  if new : a.column? c = none then a.push c new else a

/-- The symbols of a list in the order of their first occurrences. -/
def ofList (cs : List σ) : Alphabet σ :=
  cs.foldl insert empty

end Alphabet

end Residual
