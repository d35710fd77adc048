import Mathlib
import RowReduction.Proofs.EchelonForm

/-!
The rows that forward elimination settles. They are in echelon form and span what the initial rows
span, prefix by prefix. If every row carries the record of the initial rows it was combined from,
the record of a settled row has a 1 at the row itself, nothing after it, and nothing at the rows
that were found dependent.
-/
namespace RowReduction.EchelonForm

variable {K : Type*} [Field K] [DecidableEq K] {n : Nat}
variable {E : Type*} [AddCommGroup E] [Module K E]
variable {view : E →ₗ[K] Fin n → K} {rows : Nat → E}

def settledRow (view : E →ₗ[K] Fin n → K) (rows : Nat → E) (j : Nat) : E :=
  reduce view (settled view rows j) (rows j)

theorem settled_eq_map (i : Nat) :
    settled view rows i = (List.range i).map (settledRow view rows) := by
  induction i with
  | zero => rfl
  | succ i ih =>
    rw [List.range_succ, List.map_append, ← ih]
    rfl

theorem mem_settled {i : Nat} {r : E} :
    r ∈ settled view rows i ↔ ∃ j, j < i ∧ settledRow view rows j = r := by
  rw [settled_eq_map, List.mem_map]
  simp

theorem stage_of_le {i j : Nat} (unvisited : i ≤ j) :
    stage view rows i j = reduce view (settled view rows i) (rows j) := by
  rw [stage, Nat.min_eq_left unvisited]

theorem stage_of_visited {i j : Nat} (visited : j ≤ i) :
    stage view rows i j = settledRow view rows j := by
  rw [stage, Nat.min_eq_right visited, settledRow]

theorem stage_zero (j : Nat) : stage view rows 0 j = rows j := by
  rw [stage_of_le (Nat.zero_le j)]
  rfl

/-- Visiting row `i` clears its leading column from the rows that were not visited yet. -/
theorem stage_succ (i j : Nat) : stage view rows (i + 1) j =
    if i < j then clear view (settledRow view rows i) (stage view rows i j)
    else stage view rows i j := by
  split
  · rename_i later
    rw [stage_of_le later, stage_of_le (Nat.le_of_lt later)]
    exact reduce_append _ _ _
  · rename_i visited
    rw [stage_of_visited (by omega), stage_of_visited (by omega)]

theorem isEchelon_settled (i : Nat) : IsEchelon view (settled view rows i) := by
  induction i with
  | zero => exact List.Pairwise.nil
  | succ i ih =>
    refine List.pairwise_append.mpr ⟨ih, List.pairwise_singleton _ _, ?_⟩
    intro r hr s hs c leads
    rw [List.mem_singleton.mp hs]
    exact view_reduce_lead ih hr leads (rows i)

theorem settled_congr {rows' : Nat → E} {i : Nat} (same : ∀ j, j < i → rows j = rows' j) :
    settled view rows i = settled view rows' i := by
  induction i with
  | zero => rfl
  | succ i ih =>
    rw [settled, settled, ih fun j hj => same j (Nat.lt_succ_of_lt hj),
      same i (Nat.lt_succ_self i)]

/-- A settled row is determined by the row and those that come before it. -/
theorem settledRow_congr {rows' : Nat → E} {j : Nat} (same : ∀ i, i ≤ j → rows i = rows' i) :
    settledRow view rows j = settledRow view rows' j := by
  rw [settledRow, settledRow, same j (Nat.le_refl j),
    settled_congr fun i hi => same i (Nat.le_of_lt hi)]

theorem settled_of_echelon {k : Nat} (echelon : IsEchelon view ((List.range k).map rows)) :
    settled view rows k = (List.range k).map rows := by
  induction k with
  | zero => rfl
  | succ k ih =>
    rw [List.range_succ, List.map_append, List.map_singleton] at echelon ⊢
    obtain ⟨before, -, last⟩ := List.pairwise_append.mp echelon
    have unchanged : reduce view ((List.range k).map rows) (rows k) = rows k :=
      reduce_of_zero fun r hr c leads => last r hr (rows k) (List.mem_singleton_self _) c leads
    rw [settled, ih before, unchanged]

theorem settledRow_of_echelon {k j : Nat} (echelon : IsEchelon view ((List.range k).map rows))
    (inside : j < k) : settledRow view rows j = rows j := by
  have same := settled_of_echelon echelon
  rw [settled_eq_map] at same
  exact List.map_inj_left.mp same j (List.mem_range.mpr inside)

variable (view rows) in
/-- After the first rows, an elimination goes on as one of the other rows alone, each reduced by all
of the first rows. -/
theorem settled_add (k j : Nat) : settled view rows (k + j) = settled view rows k ++
    settled view (fun i => reduce view (settled view rows k) (rows (k + i))) j := by
  induction j with
  | zero => rw [Nat.add_zero, settled.eq_1, List.append_nil]
  | succ j ih =>
    rw [Nat.add_succ, settled, settled, ih, reduce_append, List.append_assoc]

section Mapping

variable {E' : Type*} [AddCommGroup E'] [Module K E'] {view' : E' →ₗ[K] Fin n → K}

theorem clear_map (f : E →ₗ[K] E') (same : ∀ x, view' (f x) = view x) (r x : E) :
    f (clear view r x) = clear view' (f r) (f x) := by
  cases leads : lead (view r) with
  | none =>
    rw [clear_of_lead_none leads, clear_of_lead_none (by rw [same, leads])]
  | some c =>
    rw [clear_of_lead view leads, clear_of_lead view' (c := c) (by rw [same, leads]), map_add,
      map_smul, same, same]

variable (view view') in
theorem isEchelon_map (f : E → E') (same : ∀ x, view' (f x) = view x) (list : List E) :
    IsEchelon view' (list.map f) ↔ IsEchelon view list := by
  simp only [IsEchelon, List.pairwise_map, same]

variable (view view') in
theorem reduce_map (f : E →ₗ[K] E') (same : ∀ x, view' (f x) = view x) (list : List E) (x : E) :
    f (reduce view list x) = reduce view' (list.map f) (f x) := by
  induction list generalizing x with
  | nil => rfl
  | cons r rest ih => rw [reduce_cons, ih, clear_map f same, List.map_cons, reduce_cons]

variable (view rows view') in
theorem settled_map (f : E →ₗ[K] E') (same : ∀ x, view' (f x) = view x) (i : Nat) :
    (settled view rows i).map f = settled view' (fun j => f (rows j)) i := by
  induction i with
  | zero => rfl
  | succ i ih =>
    rw [settled, settled, List.map_append, ih, List.map_singleton, reduce_map view view' f same, ih]

variable (view rows view') in
/-- Elimination only looks at the view: a map that keeps the view maps settled rows to settled
rows. -/
theorem settledRow_map (f : E →ₗ[K] E') (same : ∀ x, view' (f x) = view x) (j : Nat) :
    f (settledRow view rows j) = settledRow view' (fun i => f (rows i)) j := by
  rw [settledRow, settledRow, reduce_map view view' f same, settled_map view rows view' f same]

variable (view rows view') in
theorem stage_map (f : E →ₗ[K] E') (same : ∀ x, view' (f x) = view x) (i j : Nat) :
    f (stage view rows i j) = stage view' (fun k => f (rows k)) i j := by
  simp only [stage, reduce_map view view' f same, settled_map view rows view' f same]

end Mapping

theorem settledRow_column {i j : Nat} (earlier : i < j) {c : Fin n}
    (leads : lead (view (settledRow view rows i)) = some c) : view (settledRow view rows j) c = 0 :=
  view_reduce_lead (isEchelon_settled j) (mem_settled.mpr ⟨i, earlier, rfl⟩) leads (rows j)

variable (view rows) in
/-- A row changes by a combination of the rows with a leading column that were settled before. -/
theorem settledRow_sub_mem (S : Submodule K E) (j : Nat)
    (members : ∀ i, i < j → view (settledRow view rows i) ≠ 0 → settledRow view rows i ∈ S) :
    settledRow view rows j - rows j ∈ S := by
  apply reduce_sub_mem
  intro r hr nonzero
  obtain ⟨i, hi, rfl⟩ := mem_settled.mp hr
  exact members i hi nonzero

variable (view rows) in
theorem span_settled (i : Nat) :
    Submodule.span K {r | r ∈ settled view rows i} = Submodule.span K (rows '' Set.Iio i) := by
  induction i with
  | zero => simp [settled]
  | succ i ih =>
    have settled_parts : {r | r ∈ settled view rows (i + 1)} =
        insert (settledRow view rows i) {r | r ∈ settled view rows i} := by
      ext r
      simp [settled, settledRow, or_comm]
    have initial_parts : rows '' Set.Iio (i + 1) = insert (rows i) (rows '' Set.Iio i) := by
      rw [← Set.image_insert_eq]
      congr 1
      ext j
      simp [Nat.le_iff_lt_or_eq, or_comm]
    have change : settledRow view rows i - rows i ∈
        Submodule.span K {r | r ∈ settled view rows i} :=
      settledRow_sub_mem view rows _ i fun j hj _ =>
        Submodule.subset_span (mem_settled.mpr ⟨j, hj, rfl⟩)
    rw [settled_parts, initial_parts, Submodule.span_insert, Submodule.span_insert, ← ih]
    apply le_antisymm
    · refine sup_le ?_ le_sup_right
      rw [Submodule.span_singleton_le_iff_mem]
      have sum := Submodule.add_mem_sup (Submodule.mem_span_singleton_self (rows i)) change
      simpa using sum
    · refine sup_le ?_ le_sup_right
      rw [Submodule.span_singleton_le_iff_mem]
      have difference := Submodule.add_mem_sup
        (Submodule.mem_span_singleton_self (settledRow view rows i)) (Submodule.neg_mem _ change)
      simpa using difference

omit [DecidableEq K] in
/-- Vectors of which each has a column of its own, where the later ones vanish, are independent. -/
theorem independent_of_columns {ι : Type*} [LinearOrder ι] [Finite ι] {v : ι → Fin n → K}
    {column : ι → Fin n} (nonzero : ∀ k, v k (column k) ≠ 0)
    (below : ∀ k l, k < l → v l (column k) = 0) : LinearIndependent K v := by
  have := Fintype.ofFinite ι
  rw [Fintype.linearIndependent_iff]
  intro g combination k
  induction k using WellFoundedLT.induction with
  | ind k ih =>
    have entry := congrFun combination (column k)
    rw [Finset.sum_apply, Finset.sum_eq_single k] at entry
    · simpa [nonzero k] using entry
    · intro l _ apart
      rcases lt_or_gt_of_ne apart with earlier | later
      · simp [ih l earlier]
      · simp [below k l later]
    · intro absent
      exact absurd (Finset.mem_univ k) absent

/-- Rows together with the record that each is itself. -/
def recorded (vectors : Nat → Fin n → K) (m j : Nat) : (Fin n → K) × (Fin m → K) :=
  (vectors j, fun l => if l.val = j then 1 else 0)

variable {vectors : Nat → Fin n → K} {m : Nat}

/-- The record of a settled row, at the row itself, after it and at the dependent rows. -/
theorem record_settledRow (j : Nat) (l : Fin m)
    (place : j ≤ l.val ∨
      (settledRow (LinearMap.fst K _ _) (recorded vectors m) l.val).1 = 0) :
    (settledRow (LinearMap.fst K _ _) (recorded vectors m) j).2 l =
      if l.val = j then 1 else 0 := by
  induction j using Nat.strong_induction_on with
  | _ j ih =>
    -- Only earlier rows that are not zero are added, and their records vanish at `l`.
    have change := settledRow_sub_mem (LinearMap.fst K (Fin n → K) (Fin m → K))
      (recorded vectors m) (LinearMap.ker (LinearMap.proj l ∘ₗ LinearMap.snd K _ _)) j
    have member := change ?_
    · have entry : (settledRow (LinearMap.fst K _ _) (recorded vectors m) j).2 l -
          (recorded vectors m j).2 l = 0 := member
      rw [sub_eq_zero.mp entry]
      rfl
    · intro i hi nonzero
      have apart : l.val ≠ i := by
        rintro rfl
        rcases place with late | dependent
        · omega
        · exact nonzero dependent
      have earlier : i ≤ l.val ∨
          (settledRow (LinearMap.fst K _ _) (recorded vectors m) l.val).1 = 0 := by
        rcases place with late | dependent
        · exact Or.inl (by omega)
        · exact Or.inr dependent
      have entry := ih i hi earlier
      rw [if_neg apart] at entry
      exact entry

/-- The record of a row tells how its vector is combined from the initial ones. -/
def honest (vectors : Nat → Fin n → K) (m : Nat) : Submodule K ((Fin n → K) × (Fin m → K)) where
  carrier := {x | x.1 = ∑ j : Fin m, x.2 j • vectors j}
  zero_mem' := by simp
  add_mem' := by
    intro x y (hx : x.1 = _) (hy : y.1 = _)
    simp only [Set.mem_ofPred_eq, Prod.fst_add, Prod.snd_add, Pi.add_apply, add_smul,
      Finset.sum_add_distrib, hx, hy]
  smul_mem' := by
    intro c x (hx : x.1 = _)
    simp only [Set.mem_ofPred_eq, Prod.smul_fst, Prod.smul_snd, Pi.smul_apply, smul_assoc,
      Finset.smul_sum, hx]

omit [DecidableEq K] in
theorem mem_honest {x : (Fin n → K) × (Fin m → K)} :
    x ∈ honest vectors m ↔ x.1 = ∑ j : Fin m, x.2 j • vectors j := Iff.rfl

omit [DecidableEq K] in
theorem recorded_honest {j : Nat} (hj : j < m) : recorded vectors m j ∈ honest vectors m := by
  rw [mem_honest, Finset.sum_eq_single ⟨j, hj⟩]
  · simp [recorded]
  · intro l _ apart
    have other : l.val ≠ j := fun same => apart (Fin.ext same)
    simp [recorded, other]
  · intro absent
    exact absurd (Finset.mem_univ _) absent

theorem settledRow_honest {j : Nat} (hj : j < m) :
    settledRow (LinearMap.fst K _ _) (recorded vectors m) j ∈ honest vectors m := by
  induction j using Nat.strong_induction_on with
  | _ j ih =>
    have change := settledRow_sub_mem (LinearMap.fst K (Fin n → K) (Fin m → K))
      (recorded vectors m) (honest vectors m) j fun i hi _ => ih i hi (by omega)
    simpa using Submodule.add_mem _ change (recorded_honest hj)

end RowReduction.EchelonForm
