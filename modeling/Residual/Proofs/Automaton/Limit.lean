import Residual.Proofs.Automaton.Exploration

/-!
# Limited explorations

A limit on the number of states does not change what a search does, only whether it comes to its
end. `checked n` is a check afterwards: an exploration passes when it has found at most `n` states,
and otherwise its first `n` states are the error.

* **one transition** — `visit_limited`: a visit under a limit is a visit without one, and the check;
* **a search** — `ofRegex_limited`: so is the whole search. Where the check stops it, the search
  would only have found more states behind the ones it has (`Grows.checked_eq`), so that it does not
  matter when the check is made.
-/

namespace Residual

variable {σ : Type} [Symbol σ]

namespace Exploration

variable {root : Regex σ} {limit : Option Nat} {symbols : List σ} {n : Nat}

/-! ## The check -/

/-- An exploration with at most `n` states passes. Of any other the first `n` states are left. -/
def checked (n : Nat) (e : Exploration root) : Except (Array (Regex σ)) (Exploration root) :=
  if e.found.size ≤ n then .ok e else .error (e.found.take n)

theorem checked_of_le {e : Exploration root} (within : e.found.size ≤ n) : checked n e = .ok e :=
  if_pos within

theorem checked_of_lt {e : Exploration root} (beyond : n < e.found.size) :
    checked n e = .error (e.found.take n) :=
  if_neg (Nat.not_le.mpr beyond)

/-- An exploration that does not pass leaves the same states when it goes on to find more. -/
theorem Grows.checked_eq {e e' : Exploration root} (grows : e.Grows e')
    (beyond : n < e.found.size) : checked n e = checked n e' := by
  have kept : e.found.toList <+: e'.found.toList := by
    rw [List.prefix_iff_getElem?]
    intro s inside
    have here := grows s _ (Array.getElem?_eq_getElem (by simpa using inside))
    simpa using here
  have longer : e.found.size ≤ e'.found.size := by simpa using kept.length_le
  obtain ⟨more, eq⟩ := kept
  rw [checked_of_lt beyond, checked_of_lt (Nat.lt_of_lt_of_le beyond longer)]
  congr 1
  apply Array.toList_inj.mp
  simp only [Array.take_eq_extract, Array.toList_extract, List.extract_eq_take_drop]
  rw [← eq, List.drop_zero, List.drop_zero,
    List.take_append_of_le_length (by simpa using Nat.le_of_lt beyond)]

/-! ## One transition -/

/-- A visit under a limit is a visit without one, and the check. -/
theorem visit_limited {e e' : Exploration root} {r : Regex σ} {reached : root.Reaches r}
    (within : e.found.size ≤ n) (h : e.visit none r reached = .ok e') :
    e.visit (some n) r reached = checked n e' := by
  cases known : e.index[r]? with
  | some s =>
      rw [visit_of_known known] at h ⊢
      obtain rfl := Except.ok.inj h
      refine (checked_of_le ?_).symm
      rwa [(connect_eq e s _).1]
  | none =>
      rw [visit_of_new known, if_neg (by simp [isFull])] at h
      obtain rfl := Except.ok.inj h
      have found := (discover_eq e r known reached).1
      rw [visit_of_new known]
      by_cases full : n ≤ e.found.size
      · obtain rfl : n = e.found.size := Nat.le_antisymm full within
        rw [if_pos (by simp [isFull]), checked_of_lt (by simp [found]), found]
        simp
      · rw [if_neg (by simpa [isFull] using full), checked_of_le (by simp [found]; omega)]

/-! ## A search -/

theorem grows_expand {e e' : Exploration root} {todo : List σ} {r : Regex σ}
    {reached : root.Reaches r} (h : e.expand limit todo r reached = .ok e') : e.Grows e' := by
  induction todo generalizing e with
  | nil =>
      rw [expand_nil] at h
      exact Except.ok.inj h ▸ Grows.refl e
  | cons c todo ih =>
      rw [expand_cons] at h
      obtain ⟨next, visited, h⟩ := bind_eq_ok h
      exact (visit_spec visited).1.trans (ih h)

theorem grows_kept (e : Exploration root) : Kept limit symbols e.Grows :=
  fun grows _ _ _ visited => grows.trans (visit_spec visited).1

theorem grows_explore {s : Nat} {e : Exploration root} {rows : e.targets.size = s * symbols.length}
    {le : s ≤ e.found.size} {result : { e : Exploration root // e.Complete symbols }}
    (h : explore limit symbols s e rows le = .ok result) : e.Grows result.1 :=
  Kept.explore (grows_kept e) (Grows.refl e) h

/-- Taking up a state under a limit. The induction is on the columns that are left. -/
theorem expand_limited {e e' : Exploration root} {todo : List σ} {r : Regex σ}
    {reached : root.Reaches r} (within : e.found.size ≤ n)
    (h : e.expand none todo r reached = .ok e') :
    e.expand (some n) todo r reached = checked n e' := by
  induction todo generalizing e with
  | nil =>
      rw [expand_nil] at h
      obtain rfl := Except.ok.inj h
      exact (checked_of_le within).symm
  | cons c todo ih =>
      rw [expand_cons] at h
      obtain ⟨next, visited, h⟩ := bind_eq_ok h
      rw [expand_cons, visit_limited within visited]
      by_cases room : next.found.size ≤ n
      · rw [checked_of_le room]
        exact ih room h
      · rw [← (grows_expand h).checked_eq (by omega), checked_of_lt (by omega)]
        rfl

/-! Taking up a state is a part of the search. -/

section Explore

variable {s : Nat} {e : Exploration root} {rows : e.targets.size = s * symbols.length}
  {le : s ≤ e.found.size}

theorem explore_of_expand_ok {next : Exploration root} (lt : s < e.found.size)
    (expanded : e.expand limit symbols e.found[s] (e.reaches _ (Array.getElem_mem lt)) = .ok next) :
    explore limit symbols s e rows le = explore limit symbols (s + 1) next
      (by rw [(size_of_expand expanded).1, rows, Nat.succ_mul])
      (Nat.le_trans lt (size_of_expand expanded).2) := by
  rw [explore, dif_pos lt]
  split
  · next found stopped =>
    rw [expanded] at stopped
    cases stopped
  · next next' expanded' =>
    obtain rfl : next = next' := Except.ok.inj (expanded.symm.trans expanded')
    rfl

theorem explore_of_expand_error {found : Array (Regex σ)} (lt : s < e.found.size)
    (stopped :
      e.expand limit symbols e.found[s] (e.reaches _ (Array.getElem_mem lt)) = .error found) :
    explore limit symbols s e rows le = .error found := by
  rw [explore, dif_pos lt]
  split
  · next found' stopped' =>
    obtain rfl : found = found' := Except.error.inj (stopped.symm.trans stopped')
    rfl
  · next expanded =>
    rw [expanded] at stopped
    cases stopped

/-- The rest of a search under a limit. -/
theorem explore_limited {result : { e : Exploration root // e.Complete symbols }}
    (within : e.found.size ≤ n) (h : explore none symbols s e rows le = .ok result) :
    (explore (some n) symbols s e rows le).map Subtype.val = checked n result.1 := by
  fun_induction explore none symbols s e rows le with
  | case1 => cases h
  | case2 s e rows le lt next expanded ih =>
      have limited := expand_limited within expanded
      by_cases room : next.found.size ≤ n
      · rw [checked_of_le room] at limited
        rw [explore_of_expand_ok lt limited]
        exact ih room h
      · rw [checked_of_lt (by omega)] at limited
        rw [explore_of_expand_error lt limited, ← (grows_explore h).checked_eq (by omega),
          checked_of_lt (by omega)]
        rfl
  | case3 s e rows le ge =>
      obtain rfl := Except.ok.inj h
      rw [explore, dif_neg ge]
      exact (checked_of_le within).symm

end Explore

/-- A search under a limit is a search without one, and the check. -/
theorem ofRegex_limited {result : { e : Exploration root // e.Complete symbols }}
    (h : ofRegex none symbols root = .ok result) :
    (ofRegex (some n) symbols root).map Subtype.val = checked n result.1 := by
  rw [ofRegex, if_neg (by simp)] at h
  rw [ofRegex]
  split
  · next zero =>
    -- not even the start state is found
    obtain rfl : n = 0 := Option.some.inj zero
    rw [checked_of_lt result.1.found_size_pos]
    simp [Except.map]
  · next room =>
    have pos : 0 < n := Nat.pos_of_ne_zero fun zero => room (congrArg _ zero)
    exact explore_limited pos h

/-- A limit that leaves room for all states is not seen. -/
theorem ofRegex_of_le {result : { e : Exploration root // e.Complete symbols }}
    (h : ofRegex none symbols root = .ok result) (within : result.1.found.size ≤ n) :
    ofRegex (some n) symbols root = .ok result := by
  have limited : (ofRegex (some n) symbols root).map Subtype.val = _ := ofRegex_limited h
  rw [checked_of_le within] at limited
  cases search : ofRegex (some n) symbols root with
  | error found =>
      rw [search] at limited
      cases limited
  | ok other =>
      rw [search] at limited
      exact congrArg _ (Subtype.ext (Except.ok.inj limited))

/-- A limit that does not stops the search with as many states as there is room for. -/
theorem ofRegex_of_lt {result : { e : Exploration root // e.Complete symbols }}
    (h : ofRegex none symbols root = .ok result) (beyond : n < result.1.found.size) :
    ofRegex (some n) symbols root = .error (result.1.found.take n) := by
  have limited : (ofRegex (some n) symbols root).map Subtype.val = _ := ofRegex_limited h
  rw [checked_of_lt beyond] at limited
  cases search : ofRegex (some n) symbols root with
  | error found =>
      rw [search] at limited
      exact congrArg _ (Except.error.inj limited)
  | ok other =>
      rw [search] at limited
      cases limited

end Exploration

end Residual
