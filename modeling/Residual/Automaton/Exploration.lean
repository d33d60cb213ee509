import Residual.Automaton.Dfa
import Residual.Regex.Basic

/-!
# Automata from regexes

The states of the automaton of a regex are the distinct derivatives of the regex. They are found and
numbered breadth first: state `0` is the regex itself, states are taken up in the order of their
numbers, and the derivatives of a state are taken by the symbols of the alphabet in order. An
`Exploration` is what such a search has found so far. The search comes to an end because a regex has
only finitely many derivatives (`size_le_bound`).
-/

namespace Residual

variable {σ : Type} [Symbol σ]

/-- The derivatives of `root` found so far and the transitions between them. -/
structure Exploration (root : Regex σ) where
  /-- The derivatives in the order of discovery. -/
  found : Array (Regex σ)
  /-- The number of every derivative found. -/
  index : Std.HashMap (Regex σ) Nat
  /-- The transitions found, state by state, in the order of the alphabet. -/
  targets : Array Nat
  /-- The start state has been found. -/
  found_size_pos : 0 < found.size
  /-- The numbers are those of discovery. -/
  index_eq_some : ∀ (r : Regex σ) (i : Nat), index[r]? = some i ↔ found[i]? = some r
  /-- Only derivatives have been found. -/
  reaches : ∀ r ∈ found, root.Reaches r
  /-- Transitions lead to states. -/
  target_lt : ∀ t ∈ targets, t < found.size

namespace Exploration

variable {root : Regex σ}

/-- Only the start state has been found. -/
def start (root : Regex σ) : Exploration root where
  found := #[root]
  index := (∅ : Std.HashMap (Regex σ) Nat).insert root 0
  targets := #[]
  found_size_pos := by simp
  index_eq_some r i := by
    rw [Std.HashMap.getElem?_insert]
    grind
  reaches := by simpa using .refl root
  target_lt := by simp

/-- Every derivative is found once. -/
theorem nodup_found (e : Exploration root) : e.found.toList.Nodup := by
  rw [List.nodup_iff_pairwise_ne, List.pairwise_iff_getElem]
  -- a derivative found twice would have two numbers
  intro i j hi hj lt eq
  have hi' := (e.index_eq_some _ i).2 (Array.getElem?_eq_getElem (by simpa using hi))
  have hj' := (e.index_eq_some _ j).2 (Array.getElem?_eq_getElem (by simpa using hj))
  simp only [Array.getElem_toList] at eq
  rw [eq, hj', Option.some_inj] at hi'
  omega

/-- No more derivatives are found than there are. -/
theorem size_le_bound (e : Exploration root) : e.found.size ≤ root.derivativeBound.length :=
  e.nodup_found.length_le_of_subset fun r hr =>
    (e.reaches r (Array.mem_toList_iff.1 hr)).mem_derivativeBound

/-- There is no room for another state. -/
def isFull (limit : Option Nat) (e : Exploration root) : Bool :=
  limit.any fun n => n ≤ e.found.size

/-- The exploration after a transition to a derivative that was found before. -/
def connect : (e : Exploration root) → (s : Nat) → (old : s < e.found.size) → Exploration root
  | ⟨found, index, targets, pos, numbers, reaches, below⟩, s, old =>
    { found := found
      index := index
      targets := targets.push s
      found_size_pos := pos
      index_eq_some := numbers
      reaches := reaches
      target_lt := by
        simpa [Array.mem_push, or_imp, forall_and] using ⟨below, old⟩ }

/-- The exploration after a transition to a new derivative. -/
def discover : (e : Exploration root) → (r : Regex σ) → (new : e.index[r]? = none) →
    (reached : root.Reaches r) → Exploration root
  | ⟨found, index, targets, pos, numbers, reaches, below⟩, r, new, reached =>
    let s := found.size
    { found := found.push r
      index := index.insert r s
      targets := targets.push s
      found_size_pos := by simp
      index_eq_some q i := by
        have old := numbers q i
        rw [Std.HashMap.getElem?_insert, Array.getElem?_push]
        grind
      reaches q hq := by
        rcases Array.mem_push.1 hq with hq | rfl
        · exact reaches q hq
        · exact reached
      target_lt t ht := by
        rcases Array.mem_push.1 ht with ht | rfl
        · simpa using Nat.lt_succ_of_lt (below t ht)
        · simp [s] }

/-- The exploration after a transition to the derivative `r`, which may be new. If it is new and
there is no room for it, what has been found is the error. -/
def visit (limit : Option Nat) (e : Exploration root) (r : Regex σ) (reached : root.Reaches r) :
    Except (Array (Regex σ)) (Exploration root) :=
  match known : e.index[r]? with
  | some s => .ok (e.connect s (Array.getElem?_eq_some_iff.1 ((e.index_eq_some r s).1 known)).1)
  | none => if e.isFull limit then .error e.found else .ok (e.discover r known reached)

/-- The exploration after all transitions of a state. -/
def expand (limit : Option Nat) (symbols : List σ) (e : Exploration root) (r : Regex σ)
    (reached : root.Reaches r) : Except (Array (Regex σ)) (Exploration root) :=
  symbols.foldlM (fun e c => e.visit limit (r.derivative c) (reached.derivative c)) e

private theorem size_connect (e : Exploration root) (s : Nat) (old : s < e.found.size) :
    (e.connect s old).targets.size = e.targets.size + 1 ∧
      (e.connect s old).found.size = e.found.size := by
  cases e
  simp [connect]

private theorem size_discover (e : Exploration root) (r : Regex σ) (new : e.index[r]? = none)
    (reached : root.Reaches r) :
    (e.discover r new reached).targets.size = e.targets.size + 1 ∧
      (e.discover r new reached).found.size = e.found.size + 1 := by
  cases e
  simp [discover]

/-- A visit adds one transition and loses no state. -/
theorem size_of_visit {limit : Option Nat} {e e' : Exploration root} {r : Regex σ}
    {reached : root.Reaches r} (h : e.visit limit r reached = .ok e') :
    e'.targets.size = e.targets.size + 1 ∧ e.found.size ≤ e'.found.size := by
  unfold visit at h
  split at h
  · obtain rfl := Except.ok.inj h
    simp [size_connect]
  · split at h
    · simp at h
    · obtain rfl := Except.ok.inj h
      simp [size_discover]

/-- The transitions of a state are as many as there are symbols. -/
theorem size_of_expand {limit : Option Nat} {symbols : List σ} {e e' : Exploration root}
    {r : Regex σ} {reached : root.Reaches r} (h : e.expand limit symbols r reached = .ok e') :
    e'.targets.size = e.targets.size + symbols.length ∧ e.found.size ≤ e'.found.size := by
  induction symbols generalizing e with
  | nil =>
    obtain rfl := Except.ok.inj h
    simp
  | cons c symbols ih =>
    unfold expand at h
    rw [List.foldlM_cons] at h
    cases visited : e.visit limit (r.derivative c) (reached.derivative c) with
    | error found => rw [visited] at h; cases h
    | ok next =>
      rw [visited] at h
      have first := size_of_visit visited
      have rest := ih h
      simp only [List.length_cons]
      omega

/-- All transitions of all states have been found. -/
def Complete (symbols : List σ) (e : Exploration root) : Prop :=
  e.targets.size = e.found.size * symbols.length

/-- The exploration once the states from `s` on have been taken up. -/
def explore (limit : Option Nat) (symbols : List σ) (s : Nat) (e : Exploration root)
    (rows : e.targets.size = s * symbols.length) (le : s ≤ e.found.size) :
    Except (Array (Regex σ)) { e : Exploration root // e.Complete symbols } :=
  if lt : s < e.found.size then
    match expanded : e.expand limit symbols e.found[s] (e.reaches _ (Array.getElem_mem lt)) with
    | .error found => .error found
    | .ok next =>
      explore limit symbols (s + 1) next
        (by rw [(size_of_expand expanded).1, rows, Nat.succ_mul])
        (Nat.le_trans lt (size_of_expand expanded).2)
  else .ok ⟨e, by rw [Complete, rows, Nat.le_antisymm le (Nat.le_of_not_lt lt)]⟩
termination_by root.derivativeBound.length - s
decreasing_by
  have := e.size_le_bound
  omega

/-- The exploration of all derivatives of a regex. -/
def ofRegex (limit : Option Nat) (symbols : List σ) (root : Regex σ) :
    Except (Array (Regex σ)) { e : Exploration root // e.Complete symbols } :=
  if limit = some 0 then .error #[]
  else explore limit symbols 0 (start root) (by simp [start]) (Nat.zero_le _)

/-- The automaton of a completed exploration. -/
def toDfa (e : Exploration root) (alphabet : Alphabet σ)
    (complete : e.Complete alphabet.symbols.toList) : Dfa σ where
  alphabet := alphabet
  targets := e.targets
  accepting := e.found.map Regex.nullable
  accepting_size_pos := by simpa using e.found_size_pos
  targets_size := by simpa [Complete, Alphabet.size] using complete
  target_lt := by simpa using e.target_lt

end Exploration

end Residual
