import Mathlib.Computability.Language

/-!
# Words that can be cut in one way only

`flatten_unique` is the general reason: it is enough that the first part of a word can be told, and
then lists can be told from the words of their items (`flatMap_injective_of_first`). Words of one
length are such parts (`flatMap_injective_of_length`), and so are blocks, where a block is a unit
that leads and any number of units that trail it (`Framed.unique`).
-/

namespace Residual

open Computability

section Parts

variable {α β : Type}

/-- A word can be cut into parts in one way only, if its first part can be told and is not empty. -/
theorem flatten_unique {P : Language α} (nonempty : [] ∉ P)
    (first : ∀ x ∈ P, ∀ y ∈ P, ∀ rest ∈ P∗, ∀ rest' ∈ P∗, x ++ rest = y ++ rest' → x = y)
    {xs ys : List (List α)} (hxs : ∀ x ∈ xs, x ∈ P) (hys : ∀ y ∈ ys, y ∈ P)
    (same : xs.flatten = ys.flatten) : xs = ys := by
  induction xs generalizing ys with
  | nil =>
      cases ys with
      | nil => rfl
      | cons y ys =>
          have empty : y = [] := (List.append_eq_nil_iff.mp same.symm).1
          have hy := hys y (List.mem_cons_self ..)
          rw [empty] at hy
          exact absurd hy nonempty
  | cons x xs ih =>
      have hx := hxs x (List.mem_cons_self ..)
      have hxs' : ∀ z ∈ xs, z ∈ P := fun z hz => hxs z (List.mem_cons_of_mem _ hz)
      cases ys with
      | nil =>
          have empty : x = [] := (List.append_eq_nil_iff.mp same).1
          rw [empty] at hx
          exact absurd hx nonempty
      | cons y ys =>
          have hy := hys y (List.mem_cons_self ..)
          have hys' : ∀ z ∈ ys, z ∈ P := fun z hz => hys z (List.mem_cons_of_mem _ hz)
          rw [List.flatten_cons, List.flatten_cons] at same
          obtain rfl : x = y := first x hx y hy _ (Language.join_mem_kstar hxs') _
            (Language.join_mem_kstar hys') same
          rw [ih hxs' hys' (List.append_cancel_left same)]

/-- A list can be told from the words of its items, if the first item of a list can. -/
theorem flatMap_injective_of_first {spell : α → List β} (nonempty : ∀ a, spell a ≠ [])
    (first : ∀ a b rest rest', spell a ++ rest = spell b ++ rest' → a = b) :
    Function.Injective fun as : List α => as.flatMap spell := by
  intro as bs same
  have spelled (cs : List α) : ∀ x ∈ cs.map spell, x ∈ (Set.range spell : Language β) := by
    intro x hx
    obtain ⟨c, -, rfl⟩ := List.mem_map.mp hx
    exact ⟨c, rfl⟩
  have inj : Function.Injective spell := by
    intro a b equal
    exact first a b [] [] (congrArg (· ++ []) equal)
  apply List.map_injective_iff.mpr inj
  apply flatten_unique _ _ (spelled as) (spelled bs)
  · show as.flatMap spell = bs.flatMap spell
    exact same
  · rintro ⟨a, empty⟩
    exact nonempty a empty
  · rintro _ ⟨a, rfl⟩ _ ⟨b, rfl⟩ rest _ rest' _ split
    rw [first a b rest rest' split]

/-- A list can be told from the words of its items, if these are different words of one length. -/
theorem flatMap_injective_of_length {spell : α → List β} {size : Nat} (pos : 0 < size)
    (length : ∀ a, (spell a).length = size) (inj : Function.Injective spell) :
    Function.Injective fun as : List α => as.flatMap spell := by
  apply flatMap_injective_of_first
  · intro a empty
    have none := length a
    rw [empty, List.length_nil] at none
    omega
  · intro a b rest rest' split
    exact inj (List.append_inj split ((length a).trans (length b).symm)).1

end Parts

/-- Units of one size that either lead or trail. -/
structure Framed {α : Type} (size : Nat) (lead trail : Language α) : Prop where
  pos : 0 < size
  lead_length : ∀ u ∈ lead, u.length = size
  trail_length : ∀ u ∈ trail, u.length = size
  disjoint : ∀ u ∈ lead, u ∉ trail

namespace Framed

variable {α : Type} {size : Nat} {lead trail : Language α}

/-- A word is at its end, or goes on with a unit that leads. -/
def Resumes (lead : Language α) (rest : List α) : Prop :=
  rest = [] ∨ ∃ u ∈ lead, ∃ tail, rest = u ++ tail

theorem not_resumes (framed : Framed size lead trail) {u : List α} (hu : u ∈ trail)
    (tail : List α) : ¬ Resumes lead (u ++ tail) := by
  have length := framed.trail_length u hu
  rintro (done | ⟨v, hv, tail', split⟩)
  · have empty : u = [] := (List.append_eq_nil_iff.mp done).1
    have positive := framed.pos
    rw [empty, List.length_nil] at length
    omega
  · have same : u.length = v.length := length.trans (framed.lead_length v hv).symm
    obtain ⟨rfl, -⟩ := List.append_inj split same
    exact framed.disjoint u hv hu

/-- Units that trail are taken up as long as there are any. -/
theorem trail_unique (framed : Framed size lead trail) {us vs : List (List α)} {rest rest' : List α}
    (hus : ∀ u ∈ us, u ∈ trail) (hvs : ∀ v ∈ vs, v ∈ trail) (hrest : Resumes lead rest)
    (hrest' : Resumes lead rest') (same : us.flatten ++ rest = vs.flatten ++ rest') :
    us.flatten = vs.flatten := by
  induction us generalizing vs with
  | nil =>
      cases vs with
      | nil => rfl
      | cons v vs =>
          -- the rest would go on with a unit that trails
          have goes : rest = v ++ (vs.flatten ++ rest') := by
            rw [← List.append_assoc]
            exact same
          rw [goes] at hrest
          exact absurd hrest (framed.not_resumes (hvs v (List.mem_cons_self ..)) _)
  | cons u us ih =>
      have hu : u ∈ trail := hus u (List.mem_cons_self ..)
      cases vs with
      | nil =>
          have goes : rest' = u ++ (us.flatten ++ rest) := by
            rw [← List.append_assoc]
            exact same.symm
          rw [goes] at hrest'
          exact absurd hrest' (framed.not_resumes hu _)
      | cons v vs =>
          have hv : v ∈ trail := hvs v (List.mem_cons_self ..)
          have lengths : u.length = v.length :=
            (framed.trail_length u hu).trans (framed.trail_length v hv).symm
          rw [List.flatten_cons, List.flatten_cons, List.append_assoc, List.append_assoc] at same
          obtain ⟨rfl, tails⟩ := List.append_inj same lengths
          have units : us.flatten = vs.flatten := by
            apply ih _ _ tails
            · intro w hw
              exact hus w (List.mem_cons_of_mem _ hw)
            · intro w hw
              exact hvs w (List.mem_cons_of_mem _ hw)
          rw [List.flatten_cons, List.flatten_cons, units]

/-- The first block ends where the next unit leads. -/
theorem block_unique (framed : Framed size lead trail) {x y rest rest' : List α}
    (hx : x ∈ lead * trail∗) (hy : y ∈ lead * trail∗) (hrest : Resumes lead rest)
    (hrest' : Resumes lead rest') (same : x ++ rest = y ++ rest') : x = y := by
  obtain ⟨u, hu, units, hunits, rfl⟩ := hx
  obtain ⟨v, hv, others, hothers, rfl⟩ := hy
  obtain ⟨us, rfl, hus⟩ := Language.mem_kstar.mp hunits
  obtain ⟨vs, rfl, hvs⟩ := Language.mem_kstar.mp hothers
  have lengths : u.length = v.length :=
    (framed.lead_length u hu).trans (framed.lead_length v hv).symm
  have split : u ++ (us.flatten ++ rest) = v ++ (vs.flatten ++ rest') := by
    rw [← List.append_assoc, ← List.append_assoc]
    exact same
  obtain ⟨rfl, tails⟩ := List.append_inj split lengths
  exact congrArg (u ++ ·) (framed.trail_unique hus hvs hrest hrest' tails)

theorem resumes_block {x : List α} (hx : x ∈ lead * trail∗) (rest : List α) :
    Resumes lead (x ++ rest) := by
  obtain ⟨u, hu, us, -, rfl⟩ := hx
  exact .inr ⟨u, hu, us ++ rest, List.append_assoc ..⟩

theorem resumes_blocks {rest : List α} (hrest : rest ∈ (lead * trail∗)∗) :
    Resumes lead rest := by
  obtain ⟨xs, rfl, hxs⟩ := Language.mem_kstar.mp hrest
  cases xs with
  | nil => exact .inl rfl
  | cons x xs => exact resumes_block (hxs x (List.mem_cons_self ..)) xs.flatten

theorem nil_not_block (framed : Framed size lead trail) : [] ∉ lead * trail∗ := by
  rintro ⟨u, hu, us, -, empty⟩
  have positive := framed.pos
  have length := framed.lead_length u hu
  rw [(List.append_eq_nil_iff.mp empty).1, List.length_nil] at length
  omega

/-- A word can be cut into blocks in one way only. -/
theorem unique (framed : Framed size lead trail) {xs ys : List (List α)}
    (hxs : ∀ x ∈ xs, x ∈ lead * trail∗) (hys : ∀ y ∈ ys, y ∈ lead * trail∗)
    (same : xs.flatten = ys.flatten) : xs = ys := by
  apply flatten_unique framed.nil_not_block _ hxs hys same
  intro x hx y hy rest hrest rest' hrest' split
  exact framed.block_unique hx hy (resumes_blocks hrest) (resumes_blocks hrest') split

end Framed

end Residual
