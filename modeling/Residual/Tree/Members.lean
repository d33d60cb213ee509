import Residual.Tree.OrderLemmas

/-!
# Members in normal order

A list of trees is in normal order when it is strictly increasing. `normalize` brings any list into
normal order and keeps its members. Two lists in normal order with the same members are equal
(`eq_of_mem_iff`), so `normalize` depends on the members alone (`normalize_congr`).
-/

namespace Residual.Tree

variable {σ : Type} [Symbol σ]

/-- The first of every run of equal trees. -/
def dropRepeats : List (Tree σ) → List (Tree σ)
  | t :: u :: rest => if t = u then dropRepeats (u :: rest) else t :: dropRepeats (u :: rest)
  | ts => ts

/-- The trees of a list in increasing order, each of them once. -/
def normalize (ts : List (Tree σ)) : List (Tree σ) :=
  dropRepeats (ts.mergeSort fun t u => (order t u).isLE)

/-- The list is strictly increasing. -/
def Increasing (ts : List (Tree σ)) : Prop :=
  ts.Pairwise fun t u => order t u = .lt

theorem order_lt_of_isLE {t u : Tree σ} (h : (order t u).isLE) (ne : t ≠ u) : order t u = .lt := by
  cases tu : order t u with
  | lt => rfl
  | eq => exact absurd (Std.LawfulEqCmp.eq_of_compare tu) ne
  | gt => simp [tu] at h

theorem ne_of_order_lt {t u : Tree σ} (h : order t u = .lt) : t ≠ u := by
  rintro rfl
  simp [order_self] at h

/-! ## Normalization -/

@[simp] theorem mem_dropRepeats {t : Tree σ} {ts : List (Tree σ)} :
    t ∈ dropRepeats ts ↔ t ∈ ts := by
  fun_induction dropRepeats ts with
  | case1 u rest ih => simp [ih]
  | case2 u u' rest _ ih => simp [ih]
  | case3 => rfl

private theorem increasing_dropRepeats {ts : List (Tree σ)}
    (sorted : ts.Pairwise fun t u => (order t u).isLE) : Increasing (dropRepeats ts) := by
  fun_induction dropRepeats ts with
  | case1 u rest ih => exact ih sorted.of_cons
  | case2 t u rest ne ih =>
    refine List.pairwise_cons.2 ⟨fun v hv => ?_, ih sorted.of_cons⟩
    have tu := order_lt_of_isLE (List.rel_of_pairwise_cons sorted (List.mem_cons_self ..)) ne
    rcases List.mem_cons.1 (mem_dropRepeats.1 hv) with rfl | hv
    · exact tu
    · exact Std.TransCmp.lt_of_lt_of_isLE tu (List.rel_of_pairwise_cons sorted.of_cons hv)
  | case3 ts short =>
    rcases ts with _ | ⟨t, _ | ⟨u, rest⟩⟩
    · exact List.Pairwise.nil
    · exact List.pairwise_singleton ..
    · exact (short t u rest rfl).elim

theorem increasing_normalize (ts : List (Tree σ)) : Increasing (normalize ts) := by
  refine increasing_dropRepeats (List.pairwise_mergeSort ?_ ?_ ts)
  · exact fun _ _ _ => Std.TransCmp.isLE_trans
  · intro t u
    rw [@Std.OrientedCmp.eq_swap _ order _ u t]
    cases order t u <;> rfl

@[simp] theorem mem_normalize {t : Tree σ} {ts : List (Tree σ)} : t ∈ normalize ts ↔ t ∈ ts := by
  simp [normalize]

@[simp] theorem normalize_nil : normalize ([] : List (Tree σ)) = [] := by
  rw [normalize, List.mergeSort_nil]
  rfl

@[simp] theorem normalize_singleton (t : Tree σ) : normalize [t] = [t] := by
  rw [normalize, List.mergeSort_singleton]
  rfl

/-! ## Normal order is unique -/

private theorem mem_of_mem_cons {t : Tree σ} {ts us : List (Tree σ)} (hts : Increasing (t :: ts))
    (h : ∀ v, v ∈ t :: ts ↔ v ∈ t :: us) {v : Tree σ} (hv : v ∈ ts) : v ∈ us := by
  have ne := ne_of_order_lt (List.rel_of_pairwise_cons hts hv)
  exact (List.mem_cons.1 ((h v).1 (List.mem_cons_of_mem _ hv))).resolve_left ne.symm

/-- No tree of an increasing list with the same members as another comes before its first. -/
private theorem order_head_isLE {t u : Tree σ} {ts us : List (Tree σ)} (hus : Increasing (u :: us))
    (h : ∀ v, v ∈ t :: ts ↔ v ∈ u :: us) : (order u t).isLE := by
  rcases List.mem_cons.1 ((h t).1 (List.mem_cons_self ..)) with rfl | ht
  · simp [order_self]
  · simp [List.rel_of_pairwise_cons hus ht]

/-- Lists in normal order with the same members are equal. -/
theorem Increasing.eq_of_mem_iff {ts us : List (Tree σ)} (hts : Increasing ts)
    (hus : Increasing us) (h : ∀ v, v ∈ ts ↔ v ∈ us) : ts = us := by
  induction ts generalizing us with
  | nil => exact (List.eq_nil_iff_forall_not_mem.2 fun v => by simpa using (h v).2).symm
  | cons t ts ih =>
    cases us with
    | nil => exact absurd ((h t).1 (List.mem_cons_self ..)) List.not_mem_nil
    | cons u us =>
      obtain rfl : t = u := Std.LawfulEqCmp.eq_of_compare <| Std.OrientedCmp.isLE_antisymm
        (order_head_isLE hts fun v => (h v).symm) (order_head_isLE hus h)
      refine congrArg (t :: ·) (ih hts.of_cons hus.of_cons fun v => ?_)
      exact ⟨mem_of_mem_cons hts h, mem_of_mem_cons hus fun v => (h v).symm⟩

/-- Normalization depends on the members alone. -/
theorem normalize_congr {ts us : List (Tree σ)} (h : ∀ v, v ∈ ts ↔ v ∈ us) :
    normalize ts = normalize us :=
  (increasing_normalize ts).eq_of_mem_iff (increasing_normalize us) (by simpa using h)

/-- A list in normal order stays as it is. -/
theorem Increasing.normalize_eq {ts : List (Tree σ)} (hts : Increasing ts) : normalize ts = ts :=
  (increasing_normalize ts).eq_of_mem_iff hts (by simp)

end Residual.Tree
