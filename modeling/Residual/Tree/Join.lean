import Residual.Tree.Canonical

/-!
# Laws of unions and intersections

For canonical trees, a join depends only on the set of what its members contribute
(`combine_congr`); a single member stands for itself (`combine_singleton`); and a member that is a
join of the same kind may be replaced by its members (`combine_map_combine`). So a map that takes
joins as they are written member by member takes all joins so (`RespectsJoins.map_combine`).
-/

namespace Residual.Tree

variable {σ : Type} [Symbol σ] {op : Connective}

/-! ## Canonical members -/

theorem canonical_unit (op : Connective) : (op.unit : Tree σ).Canonical := by
  cases op
  · exact .fail
  · exact canonical_success

theorem canonical_zero (op : Connective) : (op.zero : Tree σ).Canonical := by
  cases op
  · exact canonical_success
  · exact .fail

/-- What a tree contributes that is no join of its own. -/
theorem contribution_of_flat {t : Tree σ} (h : t.isJoin op = false) :
    contribution op t = if t = op.unit then [] else [t] := by
  cases t with
  | join op' members =>
    have ne : op ≠ op' := fun eq => by simp [isJoin, eq] at h
    rw [contribution, if_neg ne, if_neg (by cases op <;> simp [Connective.unit, success])]
  | _ => simp [contribution, Connective.isUnit_iff]

theorem contribution_of_joins {t : Tree σ} (h : op.Joins t) :
    contribution op t = [t] := by
  rw [contribution_of_flat h.flat, if_neg h.ne_unit]

@[simp] theorem contribution_join (op : Connective) (members : List (Tree σ)) :
    contribution op (join op members) = members := by
  simp [contribution]

/-- A canonical tree other than the zero contributes canonical members. -/
theorem Canonical.joins_of_mem_contribution {t u : Tree σ} (ht : t.Canonical)
    (ne : t ≠ op.zero) (hu : u ∈ contribution op t) : u.Canonical ∧ op.Joins u := by
  cases h : t.isJoin op with
  | false =>
    rw [contribution_of_flat h] at hu
    split at hu
    · simp at hu
    · next neu =>
      obtain rfl := List.mem_singleton.1 hu
      exact ⟨ht, h, neu, ne⟩
  | true =>
    cases ht with
    | join canonical joins =>
      obtain rfl : op = _ := by simpa [isJoin, eq_comm] using h
      rw [contribution_join] at hu
      exact ⟨canonical u hu, joins u hu⟩
    | _ => simp [isJoin] at h

theorem ofMembers_of_two_le (op : Connective) {ts : List (Tree σ)} (h : 2 ≤ ts.length) :
    ofMembers op ts = join op ts := by
  rcases ts with _ | ⟨t, _ | ⟨u, ts⟩⟩
  · simp at h
  · simp at h
  · rfl

theorem canonical_ofMembers {ts : List (Tree σ)} (increasing : Increasing ts)
    (h : ∀ t ∈ ts, t.Canonical ∧ op.Joins t) : (ofMembers op ts).Canonical := by
  rcases ts with _ | ⟨t, _ | ⟨u, ts⟩⟩
  · exact canonical_unit op
  · exact (h t (by simp)).1
  · exact .join (fun t ht => (h t ht).1) (fun t ht => (h t ht).2) increasing (by simp)

theorem canonical_combine {ts : List (Tree σ)} (h : ∀ t ∈ ts, t.Canonical) :
    (combine op ts).Canonical := by
  unfold combine
  split
  · exact canonical_zero op
  · next hz =>
    refine canonical_ofMembers (increasing_normalize _) fun u hu => ?_
    obtain ⟨t, ht, hu⟩ := List.mem_flatMap.1 (mem_normalize.1 hu)
    refine (h t ht).joins_of_mem_contribution ?_ hu
    rintro rfl
    exact hz (List.any_eq_true.2 ⟨_, ht, Connective.isZero_iff.2 rfl⟩)

/-! ## Contributions -/

theorem mem_contributions {ts : List (Tree σ)} {u : Tree σ} :
    u ∈ contributions op ts ↔ ∃ t ∈ ts, u ∈ contribution op t :=
  List.mem_flatMap

/-! ## The zero -/

theorem zero_flat : (op.zero : Tree σ).isJoin op = false := by
  cases op <;> rfl

theorem zero_ne_unit : (op.zero : Tree σ) ≠ op.unit := by
  cases op <;> simp [Connective.zero, Connective.unit, success]

@[simp] theorem contribution_zero : contribution op (op.zero : Tree σ) = [op.zero] := by
  rw [contribution_of_flat zero_flat, if_neg zero_ne_unit]

@[simp] theorem contribution_unit : contribution op (op.unit : Tree σ) = [] := by
  rw [contribution_of_flat (by cases op <;> rfl), if_pos rfl]

/-- Of canonical trees only the zero contributes the zero. -/
theorem Canonical.zero_mem_contribution {t : Tree σ} (ht : t.Canonical) :
    op.zero ∈ contribution op t ↔ t = op.zero := by
  refine ⟨fun h => ?_, by rintro rfl; simp⟩
  by_cases ne : t = op.zero
  · exact ne
  · exact absurd rfl (ht.joins_of_mem_contribution ne h).2.ne_zero

theorem zero_mem_contributions {ts : List (Tree σ)} (hts : ∀ t ∈ ts, t.Canonical) :
    op.zero ∈ contributions op ts ↔ op.zero ∈ ts := by
  rw [mem_contributions]
  constructor
  · rintro ⟨t, ht, h⟩
    exact (hts t ht).zero_mem_contribution.1 h ▸ ht
  · exact fun h => ⟨op.zero, h, by simp⟩

theorem any_isZero {ts : List (Tree σ)} : ts.any op.isZero = true ↔ op.zero ∈ ts := by
  simp [List.any_eq_true, Connective.isZero_iff]

theorem combine_of_zero_mem {ts : List (Tree σ)} (h : op.zero ∈ ts) : combine op ts = op.zero := by
  rw [combine, if_pos (any_isZero.2 h)]

theorem combine_of_zero_not_mem {ts : List (Tree σ)} (h : op.zero ∉ ts) :
    combine op ts = ofMembers op (normalize (contributions op ts)) := by
  rw [combine, if_neg (fun any => h (any_isZero.1 any))]

/-! ## A join depends on what its members contribute -/

/-- Joins of canonical trees that contribute the same are equal. -/
theorem combine_congr {ts us : List (Tree σ)} (hts : ∀ t ∈ ts, t.Canonical)
    (hus : ∀ u ∈ us, u.Canonical) (h : ∀ v, v ∈ contributions op ts ↔ v ∈ contributions op us) :
    combine op ts = combine op us := by
  have zero : op.zero ∈ ts ↔ op.zero ∈ us := by
    rw [← zero_mem_contributions hts, h, zero_mem_contributions hus]
  by_cases hz : op.zero ∈ ts
  · rw [combine_of_zero_mem hz, combine_of_zero_mem (zero.1 hz)]
  · rw [combine_of_zero_not_mem hz, combine_of_zero_not_mem (mt zero.2 hz), normalize_congr h]

/-- Joins of the same canonical trees are equal. -/
theorem combine_congr_mem {ts us : List (Tree σ)} (hts : ∀ t ∈ ts, t.Canonical)
    (h : ∀ v, v ∈ ts ↔ v ∈ us) : combine op ts = combine op us :=
  combine_congr hts (fun u hu => hts u ((h u).2 hu)) fun v => by simp [mem_contributions, h]

/-- What a join of members in normal order contributes. -/
theorem contribution_ofMembers {ts : List (Tree σ)} (h : ∀ t ∈ ts, op.Joins t) :
    contribution op (ofMembers op ts) = ts := by
  rcases ts with _ | ⟨t, _ | ⟨u, ts⟩⟩
  · exact contribution_unit
  · exact contribution_of_joins (h t (by simp))
  · exact contribution_join op _

theorem joins_of_mem_contributions {ts : List (Tree σ)} (hts : ∀ t ∈ ts, t.Canonical)
    (hz : op.zero ∉ ts) {u : Tree σ} (hu : u ∈ contributions op ts) : u.Canonical ∧ op.Joins u := by
  obtain ⟨t, ht, hu⟩ := mem_contributions.1 hu
  exact (hts t ht).joins_of_mem_contribution (fun eq => hz (eq ▸ ht)) hu

/-- What a join of canonical trees contributes. -/
theorem mem_contribution_combine {ts : List (Tree σ)} (hts : ∀ t ∈ ts, t.Canonical)
    (hz : op.zero ∉ ts) {u : Tree σ} :
    u ∈ contribution op (combine op ts) ↔ u ∈ contributions op ts := by
  rw [combine_of_zero_not_mem hz, contribution_ofMembers, mem_normalize]
  exact fun t ht => (joins_of_mem_contributions hts hz (mem_normalize.1 ht)).2

/-- Only a zero among canonical trees makes their join the zero. -/
theorem combine_eq_zero {ts : List (Tree σ)} (hts : ∀ t ∈ ts, t.Canonical) :
    combine op ts = op.zero ↔ op.zero ∈ ts := by
  refine ⟨fun h => ?_, combine_of_zero_mem⟩
  by_cases hz : op.zero ∈ ts
  · exact hz
  · rw [← zero_mem_contributions hts, ← mem_contribution_combine hts hz, h, contribution_zero]
    simp

theorem combine_nil : combine op ([] : List (Tree σ)) = op.unit := by
  rw [combine_of_zero_not_mem List.not_mem_nil]
  simp [contributions, ofMembers]

/-- A single member stands for itself. -/
theorem combine_singleton {t : Tree σ} (ht : t.Canonical) : combine op [t] = t := by
  by_cases hz : op.zero ∈ [t]
  · rw [combine_of_zero_mem hz, List.mem_singleton.1 hz]
  · rw [combine_of_zero_not_mem hz]
    cases h : t.isJoin op with
    | false =>
      rw [contributions, List.flatMap_singleton, contribution_of_flat h]
      split
      · next eq => rw [eq, normalize_nil]; rfl
      · rw [normalize_singleton]; rfl
    | true =>
      cases ht with
      | @join op' members _ _ increasing several =>
        obtain rfl : op = op' := by simpa [isJoin, eq_comm] using h
        rw [contributions, List.flatMap_singleton, contribution_join, increasing.normalize_eq]
        exact ofMembers_of_two_le op several
      | _ => simp [isJoin] at h

/-- Trees that can stand among the members contribute themselves. -/
theorem contributions_of_joins {ts : List (Tree σ)} (h : ∀ t ∈ ts, op.Joins t) :
    contributions op ts = ts := by
  induction ts with
  | nil => rfl
  | cons t ts ih =>
    rw [contributions, List.flatMap_cons, contribution_of_joins (h t (by simp))]
    exact congrArg (t :: ·) (ih fun u hu => h u (by simp [hu]))

/-- A canonical join is the join of its members. -/
theorem combine_members {members : List (Tree σ)} (h : (join op members).Canonical) :
    combine op members = join op members := by
  cases h with
  | join canonical joins increasing several =>
    rw [combine_of_zero_not_mem fun h => (joins _ h).ne_zero rfl, contributions_of_joins joins,
      increasing.normalize_eq]
    exact ofMembers_of_two_le op several

/-- Joins of the same kind may be replaced by their members. -/
theorem combine_map_combine {tss : List (List (Tree σ))}
    (htss : ∀ ts ∈ tss, ∀ t ∈ ts, t.Canonical) :
    combine op (tss.map (combine op)) = combine op tss.flatten := by
  have hmap : ∀ t ∈ tss.map (combine op), t.Canonical := by
    simpa using fun ts hts => canonical_combine (htss ts hts)
  have hflat : ∀ t ∈ tss.flatten, t.Canonical := by
    simpa using fun t ts hts => htss ts hts t
  have zero : op.zero ∈ tss.map (combine op) ↔ op.zero ∈ tss.flatten := by
    rw [List.mem_map, List.mem_flatten]
    exact exists_congr fun ts => and_congr_right fun hts => combine_eq_zero (htss ts hts)
  by_cases hz : op.zero ∈ tss.map (combine op)
  · rw [combine_of_zero_mem hz, combine_of_zero_mem (zero.1 hz)]
  · -- without the zero a join contributes what its members contribute
    refine combine_congr hmap hflat fun v => ?_
    simp only [mem_contributions, List.mem_map, List.mem_flatten]
    constructor
    · rintro ⟨_, ⟨ts, hts, rfl⟩, hv⟩
      have hz : op.zero ∉ ts := fun h => hz (zero.2 (List.mem_flatten.2 ⟨ts, hts, h⟩))
      obtain ⟨t, ht, hv⟩ := mem_contributions.1 ((mem_contribution_combine (htss ts hts) hz).1 hv)
      exact ⟨t, ⟨ts, hts, ht⟩, hv⟩
    · rintro ⟨t, ⟨ts, hts, ht⟩, hv⟩
      have hz : op.zero ∉ ts := fun h => hz (zero.2 (List.mem_flatten.2 ⟨ts, hts, h⟩))
      exact ⟨_, ⟨ts, hts, rfl⟩,
        (mem_contribution_combine (htss ts hts) hz).2 (mem_contributions.2 ⟨t, ht, hv⟩)⟩

/-- A tree that a canonical tree contributes together with no other tree is that tree itself. -/
private theorem Canonical.eq_of_contribution {t u : Tree σ} (ht : t.Canonical)
    (mem : u ∈ contribution op t) (only : ∀ v ∈ contribution op t, v = u) : t = u := by
  cases h : t.isJoin op with
  | false =>
    rw [contribution_of_flat h] at mem
    split at mem
    · simp at mem
    · exact (List.mem_singleton.1 mem).symm
  | true =>
    cases ht with
    | @join op' members _ _ increasing several =>
      obtain rfl : op = op' := by simpa [isJoin, eq_comm] using h
      rw [contribution_join] at only
      rcases members with _ | ⟨v, _ | ⟨v', members⟩⟩
      · simp at several
      · simp at several
      · -- two members at least, and they differ
        have lt := List.rel_of_pairwise_cons increasing (List.mem_cons_self ..)
        exact absurd ((only v (by simp)).trans (only v' (by simp)).symm) (ne_of_order_lt lt)
    | _ => simp [isJoin] at h

/-- A join of canonical trees that is neither the unit nor a join of its kind is one of them. -/
theorem combine_mem {ts : List (Tree σ)} (hts : ∀ t ∈ ts, t.Canonical)
    (flat : (combine op ts).isJoin op = false) (ne : combine op ts ≠ op.unit) :
    combine op ts ∈ ts := by
  by_cases hz : op.zero ∈ ts
  · rwa [combine_of_zero_mem hz]
  · -- the join contributes itself alone, so it is contributed by one of the trees
    have mem (v : Tree σ) := @mem_contribution_combine _ _ op ts hts hz v
    rw [contribution_of_flat flat, if_neg ne] at mem
    simp only [List.mem_singleton, mem_contributions] at mem
    obtain ⟨t, ht, h⟩ := (mem _).1 rfl
    exact (hts t ht).eq_of_contribution h (fun v hv => (mem v).2 ⟨t, ht, hv⟩) ▸ ht

/-! ## Maps that respect joins -/

variable {τ : Type} [Symbol τ]

/-- The map takes a join of trees to the join of what it makes of the members. -/
structure RespectsJoins (op : Connective) (f : Tree σ → Tree τ) : Prop where
  canonical : ∀ t, t.Canonical → (f t).Canonical
  unit : f op.unit = op.unit
  zero : f op.zero = op.zero
  join : ∀ members, f (join op members) = combine op (members.map f)

namespace RespectsJoins

variable {f : Tree σ → Tree τ}

private theorem map_ofMembers (hf : RespectsJoins op f) {ts : List (Tree σ)}
    (hts : ∀ t ∈ ts, t.Canonical) : f (ofMembers op ts) = combine op (ts.map f) := by
  rcases ts with _ | ⟨t, _ | ⟨u, ts⟩⟩
  · exact hf.unit.trans combine_nil.symm
  · exact (combine_singleton (hf.canonical t (hts t (by simp)))).symm
  · exact hf.join _

/-- What a tree becomes is the join of what all it contributes becomes. -/
private theorem combine_contribution (hf : RespectsJoins op f) {t : Tree σ} (ht : t.Canonical) :
    combine op ((contribution op t).map f) = f t := by
  cases h : t.isJoin op with
  | false =>
    rw [contribution_of_flat h]
    split
    · next eq => rw [eq, hf.unit, List.map_nil, combine_nil]
    · exact combine_singleton (hf.canonical t ht)
  | true =>
    cases ht with
    | @join op' members _ _ increasing several =>
      obtain rfl : op = op' := by simpa [isJoin, eq_comm] using h
      rw [contribution_join, hf.join]
    | _ => simp [isJoin] at h

/-- Joins are taken member by member, whatever happens to the members on the way. -/
theorem map_combine (hf : RespectsJoins op f) {ts : List (Tree σ)}
    (hts : ∀ t ∈ ts, t.Canonical) : f (combine op ts) = combine op (ts.map f) := by
  by_cases hz : op.zero ∈ ts
  · rw [combine_of_zero_mem hz, hf.zero, combine_of_zero_mem]
    exact List.mem_map.2 ⟨op.zero, hz, hf.zero⟩
  · have hcs : ∀ u ∈ contributions op ts, u.Canonical := fun u hu =>
      (joins_of_mem_contributions hts hz hu).1
    have hns : ∀ u ∈ normalize (contributions op ts), u.Canonical := by simpa using hcs
    have hfs : ∀ us ∈ ts.map fun t => (contribution op t).map f, ∀ u ∈ us, u.Canonical := by
      simpa using fun t ht u hu => hf.canonical u (hcs u (mem_contributions.2 ⟨t, ht, hu⟩))
    calc f (combine op ts)
      _ = combine op ((normalize (contributions op ts)).map f) := by
        rw [combine_of_zero_not_mem hz, hf.map_ofMembers hns]
      _ = combine op ((contributions op ts).map f) :=
        combine_congr_mem (by simpa using fun u hu => hf.canonical u (hcs u hu)) (by simp)
      _ = combine op (ts.map fun t => (contribution op t).map f).flatten := by
        rw [contributions, List.map_flatMap, List.flatMap_def]
      _ = combine op (ts.map f) := by
        rw [← combine_map_combine hfs, List.map_map]
        exact congrArg _ (List.map_congr_left fun t ht => hf.combine_contribution (hts t ht))

end RespectsJoins

end Residual.Tree
