import Mathlib.Data.Set.Card
import Residual.Automaton.Exploration
import Residual.Proofs.Automaton.Run
import Residual.Proofs.Language

/-!
# What an exploration finds

The search for the derivatives of a regex, step by step and as a whole:

* **one transition** — `visit_cases` says everything that a visit can do;
* **the invariant** — `Traced`: every transition in the table leads from a derivative to its
  derivative by the symbol of the column, and every derivative found is one by a word over the
  alphabet. Visits keep it (`Traced.visit`), and a search keeps what visits keep (`Kept.ofRegex`);
* **the result** — `mem_found_iff`: a complete search has found the derivatives by words over the
  alphabet, and `run_toDfa`: its automaton runs through them.
-/

namespace Residual

variable {σ : Type} [Symbol σ]

/-- The derivatives of a regex by the words over some symbols. -/
def Regex.residuals (root : Regex σ) (symbols : List σ) : Set (Regex σ) :=
  {r | ∃ w, (∀ c ∈ w, c ∈ symbols) ∧ root.residual w = r}

theorem Regex.mem_residuals_self (root : Regex σ) (symbols : List σ) :
    root ∈ root.residuals symbols :=
  ⟨[], by simp, rfl⟩

theorem Regex.derivative_mem_residuals {root r : Regex σ} {symbols : List σ} {c : σ}
    (hr : r ∈ root.residuals symbols) (hc : c ∈ symbols) :
    r.derivative c ∈ root.residuals symbols := by
  obtain ⟨w, hw, rfl⟩ := hr
  refine ⟨w ++ [c], ?_, ?_⟩
  · intro d member
    rcases List.mem_append.mp member with member | member
    · exact hw d member
    · rw [List.mem_singleton.mp member]
      exact hc
  · rw [Regex.residual, List.foldl_append]
    rfl

namespace Exploration

variable {root : Regex σ} {limit : Option Nat} {symbols : List σ}

/-! ## One transition -/

theorem index_eq_none {e : Exploration root} {r : Regex σ} (h : e.index[r]? = none) :
    r ∉ e.found := by
  intro member
  obtain ⟨i, inside, here⟩ := Array.mem_iff_getElem.mp member
  have numbered := (e.index_eq_some r i).mpr (Array.getElem?_eq_some_iff.mpr ⟨inside, here⟩)
  rw [h] at numbered
  exact absurd numbered (by simp)

theorem connect_eq (e : Exploration root) (s : Nat) (old : s < e.found.size) :
    (e.connect s old).found = e.found ∧ (e.connect s old).targets = e.targets.push s := by
  cases e
  exact ⟨rfl, rfl⟩

theorem discover_eq (e : Exploration root) (r : Regex σ) (new : e.index[r]? = none)
    (reached : root.Reaches r) :
    (e.discover r new reached).found = e.found.push r ∧
      (e.discover r new reached).targets = e.targets.push e.found.size := by
  cases e
  exact ⟨rfl, rfl⟩

theorem visit_of_known {e : Exploration root} {r : Regex σ} {s : Nat} (known : e.index[r]? = some s)
    (limit : Option Nat) (reached : root.Reaches r) :
    e.visit limit r reached =
      .ok (e.connect s (Array.getElem?_eq_some_iff.1 ((e.index_eq_some r s).1 known)).1) := by
  unfold visit
  split
  · next s' known' =>
    obtain rfl : s' = s := Option.some.inj (known'.symm.trans known)
    rfl
  · next new =>
    rw [known] at new
    cases new

theorem visit_of_new {e : Exploration root} {r : Regex σ} (new : e.index[r]? = none)
    (limit : Option Nat) (reached : root.Reaches r) :
    e.visit limit r reached =
      if e.isFull limit then .error e.found else .ok (e.discover r new reached) := by
  unfold visit
  split
  · next s known =>
    rw [known] at new
    cases new
  · rfl

/-- A visit adds one transition to the derivative it visits: to where the derivative was found
before, or to a new state if there is room. -/
theorem visit_cases {e e' : Exploration root} {r : Regex σ} {reached : root.Reaches r}
    (h : e.visit limit r reached = .ok e') :
    (∃ t, e.found[t]? = some r ∧ e'.found = e.found ∧ e'.targets = e.targets.push t) ∨
      r ∉ e.found ∧ e.isFull limit = false ∧ e'.found = e.found.push r ∧
        e'.targets = e.targets.push e.found.size := by
  cases known : e.index[r]? with
  | some t =>
      rw [visit_of_known known] at h
      obtain rfl := Except.ok.inj h
      have here := (e.index_eq_some r t).mp known
      exact .inl ⟨t, here, connect_eq e t (Array.getElem?_eq_some_iff.mp here).1⟩
  | none =>
      rw [visit_of_new known] at h
      split at h
      · cases h
      · next room =>
        obtain rfl := Except.ok.inj h
        obtain ⟨found, targets⟩ := discover_eq e r known reached
        exact .inr ⟨index_eq_none known, by simpa using room, found, targets⟩

/-- Only a lack of room stops a visit. -/
theorem visit_unlimited (e : Exploration root) (r : Regex σ) (reached : root.Reaches r) :
    ∃ e', e.visit none r reached = .ok e' := by
  cases known : e.index[r]? with
  | some s => exact ⟨_, visit_of_known known none reached⟩
  | none =>
      rw [visit_of_new known, if_neg (by simp [isFull])]
      exact ⟨_, rfl⟩

/-! ## The invariant -/

/-- Everything that an exploration has recorded is so. -/
structure Traced (symbols : List σ) (e : Exploration root) : Prop where
  /-- An entry of the table stands for the derivative by the symbol of its column. -/
  entry : ∀ i t : Nat, e.targets[i]? = some t → ∃ r c, e.found[i / symbols.length]? = some r ∧
    symbols[i % symbols.length]? = some c ∧ e.found[t]? = some (r.derivative c)
  /-- The start state is the root. -/
  first : e.found[0]? = some root
  /-- Every state is a derivative by a word over the alphabet. -/
  reached : ∀ r ∈ e.found, r ∈ root.residuals symbols

theorem traced_start (root : Regex σ) (symbols : List σ) : (start root).Traced symbols where
  entry i t h := by simp [start] at h
  first := rfl
  reached r h := by
    obtain rfl : r = root := by simpa [start] using h
    exact r.mem_residuals_self symbols

/-- States keep their numbers. -/
def Grows (e e' : Exploration root) : Prop :=
  ∀ (s : Nat) (r : Regex σ), e.found[s]? = some r → e'.found[s]? = some r

theorem Grows.refl (e : Exploration root) : e.Grows e :=
  fun _ _ h => h

theorem Grows.trans {e e' e'' : Exploration root} (h : e.Grows e') (h' : e'.Grows e'') :
    e.Grows e'' :=
  fun s r here => h' s r (h s r here)

/-- A visit adds one transition, which leads to the derivative it visits, and no state but that. -/
theorem visit_spec {e e' : Exploration root} {r : Regex σ} {reached : root.Reaches r}
    (h : e.visit limit r reached = .ok e') :
    e.Grows e' ∧ (∃ t, e'.targets = e.targets.push t ∧ e'.found[t]? = some r) ∧
      ∀ q ∈ e'.found, q ∈ e.found ∨ q = r := by
  rcases visit_cases h with ⟨t, here, found, targets⟩ | ⟨-, -, found, targets⟩
  · refine ⟨?_, ⟨t, targets, found ▸ here⟩, ?_⟩
    · intro s q here
      rwa [found]
    · intro q member
      rw [found] at member
      exact .inl member
  · refine ⟨?_, ⟨e.found.size, targets, ?_⟩, ?_⟩
    · intro s q here
      obtain ⟨inside, -⟩ := Array.getElem?_eq_some_iff.mp here
      rw [found, Array.getElem?_push_lt inside]
      rwa [Array.getElem?_eq_getElem inside] at here
    · rw [found, Array.getElem?_push_size]
    · intro q member
      rw [found] at member
      exact Array.mem_push.mp member

/-- The next entry of the table keeps the invariant when it is the one that the row and the column
ask for. -/
theorem Traced.visit {e e' : Exploration root} {s j : Nat} {r : Regex σ} {c : σ}
    {reached : root.Reaches (r.derivative c)} (traced : e.Traced symbols)
    (rows : e.targets.size = s * symbols.length + j) (hr : e.found[s]? = some r)
    (hc : symbols[j]? = some c) (h : e.visit limit (r.derivative c) reached = .ok e') :
    e'.Traced symbols := by
  obtain ⟨grows, ⟨t, targets, here⟩, states⟩ := visit_spec h
  refine ⟨?_, grows _ _ traced.first, ?_⟩
  · intro i u hu
    rw [targets, Array.getElem?_push] at hu
    -- the entry is the new one, or one that was there before
    split at hu
    · next new =>
      obtain rfl := Option.some.inj hu
      have inside : j < symbols.length := (List.getElem?_eq_some_iff.mp hc).1
      obtain ⟨row, column⟩ := entry_place s inside
      rw [← rows, ← new] at row column
      exact ⟨r, c, by rw [row]; exact grows _ _ hr, by rw [column]; exact hc, here⟩
    · obtain ⟨q, d, hq, hd, hqd⟩ := traced.entry i u hu
      exact ⟨q, d, grows _ _ hq, hd, grows _ _ hqd⟩
  · intro q member
    rcases states q member with old | rfl
    · exact traced.reached q old
    · have member := traced.reached r (Array.mem_of_getElem? hr)
      exact Regex.derivative_mem_residuals member (List.mem_of_getElem? hc)

theorem expand_nil (e : Exploration root) (r : Regex σ) (reached : root.Reaches r) :
    e.expand limit [] r reached = .ok e :=
  rfl

theorem expand_cons (e : Exploration root) (c : σ) (todo : List σ) (r : Regex σ)
    (reached : root.Reaches r) :
    e.expand limit (c :: todo) r reached =
      (e.visit limit (r.derivative c) (reached.derivative c)).bind fun next =>
        next.expand limit todo r reached :=
  rfl

theorem bind_eq_ok {ε α β : Type} {x : Except ε α} {f : α → Except ε β} {b : β}
    (h : x.bind f = .ok b) : ∃ a, x = .ok a ∧ f a = .ok b := by
  cases x with
  | error error => cases h
  | ok a => exact ⟨a, rfl, h⟩

/-! A search is made of visits, so that it keeps whatever they keep. -/

/-- Every visit keeps a property, if it adds the entry that the row and the column ask for. -/
def Kept (limit : Option Nat) (symbols : List σ) (P : Exploration root → Prop) : Prop :=
  ∀ {e e' : Exploration root} {s j : Nat} {r : Regex σ} {c : σ}
    {reached : root.Reaches (r.derivative c)}, P e → e.targets.size = s * symbols.length + j →
    e.found[s]? = some r → symbols[j]? = some c →
    e.visit limit (r.derivative c) reached = .ok e' → P e'

namespace Kept

variable {P : Exploration root → Prop}

/-- Taking up a state. The induction is on the columns that are left. -/
theorem expand (kept : Kept limit symbols P) {e e' : Exploration root} {s : Nat} {r : Regex σ}
    {reached : root.Reaches r} {todo : List σ} (done : List σ) (he : P e)
    (split : symbols = done ++ todo) (rows : e.targets.size = s * symbols.length + done.length)
    (hr : e.found[s]? = some r) (h : e.expand limit todo r reached = .ok e') : P e' := by
  induction todo generalizing e done with
  | nil =>
      rw [expand_nil] at h
      exact Except.ok.inj h ▸ he
  | cons c todo ih =>
      rw [expand_cons] at h
      obtain ⟨next, visited, h⟩ := bind_eq_ok h
      have column : symbols[done.length]? = some c := by simp [split]
      have hnext : P next := kept he rows hr column visited
      have size := (size_of_visit visited).1
      -- the row is longer by one entry, and the state taken up keeps its number
      apply ih (done ++ [c]) hnext
      · rw [split, List.append_assoc, List.singleton_append]
      · show next.targets.size = s * symbols.length + (done ++ [c]).length
        rw [List.length_append, List.length_singleton]
        omega
      · exact (visit_spec visited).1 s r hr
      · exact h

theorem explore (kept : Kept limit symbols P) {s : Nat} {e : Exploration root}
    {rows : e.targets.size = s * symbols.length} {le : s ≤ e.found.size}
    {result : { e : Exploration root // e.Complete symbols }} (he : P e)
    (h : Exploration.explore limit symbols s e rows le = .ok result) : P result.1 := by
  fun_induction Exploration.explore limit symbols s e rows le with
  | case1 => cases h
  | case2 s e rows le lt next expanded ih =>
      exact ih (kept.expand [] he rfl rows (Array.getElem?_eq_getElem lt) expanded) h
  | case3 s e rows le ge =>
      obtain rfl := Except.ok.inj h
      exact he

theorem ofRegex (kept : Kept limit symbols P) (first : P (start root))
    {result : { e : Exploration root // e.Complete symbols }}
    (h : Exploration.ofRegex limit symbols root = .ok result) : P result.1 := by
  unfold Exploration.ofRegex at h
  split at h
  · cases h
  · exact kept.explore first h

end Kept

theorem traced_ofRegex {result : { e : Exploration root // e.Complete symbols }}
    (h : ofRegex limit symbols root = .ok result) : result.1.Traced symbols :=
  Kept.ofRegex Traced.visit (traced_start root symbols) h

/-! ## Without a limit -/

theorem expand_unlimited (e : Exploration root) (todo : List σ) (r : Regex σ)
    (reached : root.Reaches r) : ∃ e', e.expand none todo r reached = .ok e' := by
  induction todo generalizing e with
  | nil => exact ⟨e, rfl⟩
  | cons c todo ih =>
      obtain ⟨next, visited⟩ := visit_unlimited e (r.derivative c) (reached.derivative c)
      rw [expand_cons, visited]
      exact ih next

/-- Without a limit the search comes to its end. -/
theorem explore_unlimited (s : Nat) (e : Exploration root)
    (rows : e.targets.size = s * symbols.length) (le : s ≤ e.found.size) :
    ∃ result, explore none symbols s e rows le = .ok result := by
  fun_induction explore none symbols s e rows le with
  | case1 s e rows le lt found stopped =>
      obtain ⟨next, expanded⟩ :=
        expand_unlimited e symbols e.found[s] (e.reaches _ (Array.getElem_mem lt))
      rw [stopped] at expanded
      cases expanded
  | case2 s e rows le lt next expanded ih => exact ih
  | case3 => exact ⟨_, rfl⟩

theorem ofRegex_unlimited (root : Regex σ) (symbols : List σ) :
    ∃ result, ofRegex none symbols root = .ok result := by
  rw [ofRegex, if_neg (by simp)]
  exact explore_unlimited 0 (start root) (by simp [start]) (Nat.zero_le _)

/-! ## Complete explorations -/

/-- The table of a complete exploration has an entry for every state and every column. -/
theorem Traced.exists_entry {e : Exploration root} {s j : Nat} {r : Regex σ} {c : σ}
    (traced : e.Traced symbols) (complete : e.Complete symbols) (hr : e.found[s]? = some r)
    (hc : symbols[j]? = some c) :
    ∃ t, e.targets[s * symbols.length + j]? = some t ∧ e.found[t]? = some (r.derivative c) := by
  obtain ⟨hs, -⟩ := Array.getElem?_eq_some_iff.mp hr
  obtain ⟨hj, -⟩ := List.getElem?_eq_some_iff.mp hc
  have inside : s * symbols.length + j < e.targets.size := by
    rw [complete]
    exact entry_lt hs hj
  obtain ⟨q, d, hq, hd, target⟩ := traced.entry _ _ (Array.getElem?_eq_getElem inside)
  obtain ⟨row, column⟩ := entry_place s hj
  rw [row, hr] at hq
  rw [column, hc] at hd
  obtain rfl := Option.some.inj hq
  obtain rfl := Option.some.inj hd
  exact ⟨_, Array.getElem?_eq_getElem inside, target⟩

/-- A complete exploration has found the derivatives by the words over its symbols. -/
theorem Traced.mem_found_iff {e : Exploration root} (traced : e.Traced symbols)
    (complete : e.Complete symbols) {r : Regex σ} :
    r ∈ e.found ↔ r ∈ root.residuals symbols := by
  refine ⟨traced.reached r, ?_⟩
  rintro ⟨w, hw, rfl⟩
  -- a word is read from the start state, or from any other state that was found
  suffices ∀ q ∈ e.found, q.residual w ∈ e.found from
    this root (Array.mem_of_getElem? traced.first)
  induction w with
  | nil =>
      intro q hq
      exact hq
  | cons c w ih =>
      intro q hq
      obtain ⟨s, hs⟩ := Array.mem_iff_getElem?.mp hq
      obtain ⟨j, hj⟩ := List.mem_iff_getElem?.mp (hw c (List.mem_cons_self ..))
      obtain ⟨t, -, ht⟩ := traced.exists_entry complete hs hj
      exact ih (fun d hd => hw d (List.mem_cons_of_mem _ hd)) _ (Array.mem_of_getElem? ht)

/-- The states of a complete exploration are as many as there are derivatives. -/
theorem Traced.size_eq_ncard {e : Exploration root} (traced : e.Traced symbols)
    (complete : e.Complete symbols) : e.found.size = (root.residuals symbols).ncard := by
  have same : root.residuals symbols = (e.found.toList.toFinset : Set (Regex σ)) := by
    ext r
    simp [← traced.mem_found_iff complete]
  rw [same, Set.ncard_coe_finset, List.toFinset_card_of_nodup e.nodup_found, Array.length_toList]

/-! ## The automaton of a complete exploration -/

section Automaton

variable {e : Exploration root} {alphabet : Alphabet σ}
  {complete : e.Complete alphabet.symbols.toList}

theorem accepts_toDfa {s : Nat} {r : Regex σ} (hr : e.found[s]? = some r) :
    (e.toDfa alphabet complete).accepts s = r.nullable := by
  simp [Dfa.accepts, toDfa, hr]

theorem next_toDfa (traced : e.Traced alphabet.symbols.toList) {s : Nat} {r : Regex σ} {c : σ}
    (hr : e.found[s]? = some r) (hc : c ∈ alphabet.symbols) :
    ∃ t, (e.toDfa alphabet complete).next s c = some t ∧ e.found[t]? = some (r.derivative c) := by
  cases found : alphabet.column? c with
  | none => exact absurd hc (Alphabet.column?_eq_none.mp found)
  | some j =>
      have column : alphabet.symbols.toList[j]? = some c := by
        rw [Array.getElem?_toList]
        exact Alphabet.column?_eq_some.mp found
      obtain ⟨t, entry, here⟩ := traced.exists_entry complete hr column
      refine ⟨t, ?_, here⟩
      rw [Dfa.next]
      show (alphabet.column? c).bind (fun column => e.targets[s * alphabet.size + column]?) = some t
      rw [found, Option.bind_some]
      exact entry

/-- Reading a word leads from the state of a derivative to the state of what is left of it. -/
theorem run_toDfa (traced : e.Traced alphabet.symbols.toList) {s : Nat} {r : Regex σ}
    {w : List σ} (hr : e.found[s]? = some r) (hw : ∀ c ∈ w, c ∈ alphabet.symbols) :
    ∃ t, (e.toDfa alphabet complete).run s w = some t ∧ e.found[t]? = some (r.residual w) := by
  induction w generalizing s r with
  | nil => exact ⟨s, rfl, hr⟩
  | cons c w ih =>
      obtain ⟨t, step, here⟩ := next_toDfa traced hr (hw c (List.mem_cons_self ..))
      rw [Dfa.run_cons, step, Option.bind_some]
      exact ih here fun d hd => hw d (List.mem_cons_of_mem _ hd)

/-- The automaton decides words over its alphabet as the regex does. -/
theorem isMatch_toDfa (traced : e.Traced alphabet.symbols.toList) {w : List σ}
    (hw : ∀ c ∈ w, c ∈ alphabet.symbols) :
    (e.toDfa alphabet complete).isMatch w = root.accepts w := by
  obtain ⟨t, run, here⟩ : ∃ t, (e.toDfa alphabet complete).run 0 w = some t ∧
      e.found[t]? = some (root.residual w) := run_toDfa traced traced.first hw
  rw [Dfa.isMatch, Dfa.start, run, Option.any_some, accepts_toDfa here,
    root.accepts_eq_nullable_residual]

end Automaton

end Exploration

end Residual
