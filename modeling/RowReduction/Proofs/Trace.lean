import Mathlib
import RowReduction.Proofs.Workspace

/-!
What a forward elimination finds, row by row: a row has a pivot or is dependent once it was
visited. The pivots and the dependent rows are listed here from the settled rows alone, apart from
the run that collects them.
-/
namespace RowReduction

open EchelonForm

variable {p : SmallPrime} {m n : Nat}

abbrev Pair.settled (rows : Nat → Pair p n m) (j : Nat) : Pair p n m :=
  settledRow (Pair.vector p n m) rows j

def pivotsBefore (rows : Nat → Pair p n m) (i : Nat) : List Pivot :=
  (List.range i).filterMap fun j => pivotOf (Pair.settled rows j).1 j

def dependentBefore (rows : Nat → Pair p n m) (i : Nat) : List Nat :=
  (List.range i).filter fun j => (Pair.settled rows j).1 = 0

variable {rows : Nat → Pair p n m}

theorem row_of_pivotOf {v : Fin n → Residue p} {i : Nat} {pivot : Pivot}
    (found : pivotOf v i = some pivot) : pivot.row = i := by
  obtain ⟨c, -, rfl⟩ := pivotOf_eq_some.mp found
  rfl

theorem pivotsBefore_succ (i : Nat) :
    pivotsBefore rows (i + 1) =
      pivotsBefore rows i ++ (pivotOf (Pair.settled rows i).1 i).toList := by
  rw [pivotsBefore, List.range_succ, List.filterMap_append, ← pivotsBefore]
  cases found : pivotOf (Pair.settled rows i).1 i <;> simp [found]

theorem dependentBefore_succ (i : Nat) :
    dependentBefore rows (i + 1) =
      dependentBefore rows i ++ if (Pair.settled rows i).1 = 0 then [i] else [] := by
  rw [dependentBefore, List.range_succ, List.filter_append, ← dependentBefore]
  split <;> simp_all

theorem pivotsBefore_of_zero {i : Nat} (zero : (Pair.settled rows i).1 = 0) :
    pivotsBefore rows (i + 1) = pivotsBefore rows i := by
  rw [pivotsBefore_succ, pivotOf_eq_none.mpr zero, Option.toList_none, List.append_nil]

theorem dependentBefore_of_zero {i : Nat} (zero : (Pair.settled rows i).1 = 0) :
    dependentBefore rows (i + 1) = dependentBefore rows i ++ [i] := by
  rw [dependentBefore_succ, if_pos zero]

theorem ne_zero_of_pivotOf {v : Fin n → Residue p} {i : Nat} {pivot : Pivot}
    (found : pivotOf v i = some pivot) : v ≠ 0 := by
  intro zero
  rw [pivotOf_eq_none.mpr zero] at found
  contradiction

theorem pivotsBefore_of_pivot {i : Nat} {pivot : Pivot}
    (found : pivotOf (Pair.settled rows i).1 i = some pivot) :
    pivotsBefore rows (i + 1) = pivotsBefore rows i ++ [pivot] := by
  rw [pivotsBefore_succ, found, Option.toList_some]

theorem dependentBefore_of_pivot {i : Nat} {pivot : Pivot}
    (found : pivotOf (Pair.settled rows i).1 i = some pivot) :
    dependentBefore rows (i + 1) = dependentBefore rows i := by
  rw [dependentBefore_succ, if_neg (ne_zero_of_pivotOf found), List.append_nil]

theorem mem_pivotsBefore {i : Nat} {pivot : Pivot} :
    pivot ∈ pivotsBefore rows i ↔
      pivot.row < i ∧ pivotOf (Pair.settled rows pivot.row).1 pivot.row = some pivot := by
  rw [pivotsBefore, List.mem_filterMap]
  constructor
  · rintro ⟨j, hj, found⟩
    rw [row_of_pivotOf found]
    exact ⟨List.mem_range.mp hj, found⟩
  · rintro ⟨hj, found⟩
    exact ⟨pivot.row, List.mem_range.mpr hj, found⟩

theorem mem_dependentBefore {i j : Nat} :
    j ∈ dependentBefore rows i ↔ j < i ∧ (Pair.settled rows j).1 = 0 := by
  simp [dependentBefore]

theorem pivotsBefore_pairwise (rows : Nat → Pair p n m) (i : Nat) :
    (pivotsBefore rows i).Pairwise fun a b => a.row < b.row := by
  refine List.Pairwise.filterMap _ ?_ List.pairwise_lt_range
  intro j k earlier a found b later
  rw [row_of_pivotOf found, row_of_pivotOf later]
  exact earlier

theorem dependentBefore_pairwise (rows : Nat → Pair p n m) (i : Nat) :
    (dependentBefore rows i).Pairwise (· < ·) :=
  List.pairwise_lt_range.filter _

/-- Every row has a pivot or is dependent. -/
theorem length_before (i : Nat) :
    (pivotsBefore rows i).length + (dependentBefore rows i).length = i := by
  induction i with
  | zero => rfl
  | succ i ih =>
    cases found : pivotOf (Pair.settled rows i).1 i with
    | none =>
      have zero := pivotOf_eq_none.mp found
      rw [pivotsBefore_of_zero zero, dependentBefore_of_zero zero, List.length_append,
        List.length_singleton, ← Nat.add_assoc, ih]
    | some pivot =>
      rw [pivotsBefore_of_pivot found, dependentBefore_of_pivot found, List.length_append,
        List.length_singleton, Nat.add_right_comm, ih]

theorem length_pivotsBefore_le (i : Nat) : (pivotsBefore rows i).length ≤ i :=
  Nat.le.intro (length_before i)

theorem range_isPrefix {i j : Nat} (fewer : i ≤ j) : List.range i <+: List.range j := by
  have taken := List.take_prefix i (List.range j)
  rwa [List.take_range, Nat.min_eq_left fewer] at taken

theorem pivotsBefore_isPrefix (rows : Nat → Pair p n m) {i j : Nat} (fewer : i ≤ j) :
    pivotsBefore rows i <+: pivotsBefore rows j :=
  (range_isPrefix fewer).filterMap _

theorem dependentBefore_isPrefix (rows : Nat → Pair p n m) {i j : Nat} (fewer : i ≤ j) :
    dependentBefore rows i <+: dependentBefore rows j :=
  (range_isPrefix fewer).filter _

/-- The pivots listed before a pivot are those of the rows before its row. -/
theorem pivotsBefore_row {i k : Nat} {pivot : Pivot}
    (place : (pivotsBefore rows i)[k]? = some pivot) :
    pivotsBefore rows pivot.row = (pivotsBefore rows i).take k := by
  induction i with
  | zero => simp [pivotsBefore] at place
  | succ i ih =>
    rw [pivotsBefore_succ] at place ⊢
    rw [List.getElem?_append] at place
    split at place
    · rename_i earlier
      rw [ih place, List.take_append_of_le_length (Nat.le_of_lt earlier)]
    · have found : pivotOf (Pair.settled rows i).1 i = some pivot :=
        Option.mem_toList.mp (List.mem_of_getElem? place)
      have here : k = (pivotsBefore rows i).length := by
        rw [found, Option.toList_some, List.getElem?_singleton] at place
        split at place
        · omega
        · cases place
      rw [row_of_pivotOf found, here, List.take_left]

/-- If no row is dependent, every pivot is listed at the number of its row. -/
theorem row_of_no_dependent {i k : Nat} {pivot : Pivot} (independent : dependentBefore rows i = [])
    (place : (pivotsBefore rows i)[k]? = some pivot) : pivot.row = k := by
  have before := (mem_pivotsBefore.mp (List.mem_of_getElem? place)).1
  have start := dependentBefore_isPrefix rows (Nat.le_of_lt before)
  rw [independent, List.prefix_nil] at start
  have count : (pivotsBefore rows pivot.row).length + (dependentBefore rows pivot.row).length =
      pivot.row := length_before pivot.row
  rw [start, pivotsBefore_row place, List.length_take, List.length_nil, Nat.add_zero] at count
  have inside := (List.getElem?_eq_some_iff.mp place).1
  omega

/-- What stands at the positions of a list is given by its entries. -/
theorem map_range_length {α β : Type} {list : List α} {f : Nat → β} {g : α → β}
    (same : ∀ k x, list[k]? = some x → f k = g x) :
    (List.range list.length).map f = list.map g := by
  apply List.ext_getElem
  · simp
  · intro k inside _
    have place : k < list.length := by simpa using inside
    simp only [List.getElem_map, List.getElem_range]
    exact same k _ (List.getElem?_eq_getElem place)

/-- The rows of the pivots are the settled rows that are not zero. -/
theorem map_pivotsBefore (i : Nat) :
    (pivotsBefore rows i).map (fun pivot => Pair.settled rows pivot.row) =
      (EchelonForm.settled (Pair.vector p n m) rows i).filter
        fun r => Pair.vector p n m r ≠ 0 := by
  induction i with
  | zero => rfl
  | succ i ih =>
    rw [pivotsBefore_succ, List.map_append, ih, EchelonForm.settled, List.filter_append]
    congr 1
    change _ = [Pair.settled rows i].filter fun r => Pair.vector p n m r ≠ 0
    cases found : pivotOf (Pair.settled rows i).1 i with
    | none =>
      have zero := pivotOf_eq_none.mp found
      simp [zero]
    | some pivot =>
      simp [row_of_pivotOf found, ne_zero_of_pivotOf found]

/-- The vectors of settled rows depend on the vectors of the initial rows alone. Their records may
have any length. -/
theorem settled_fst_congr {k : Nat} {rows' : Nat → Pair p n k} {j : Nat}
    (same : ∀ i, i ≤ j → (rows i).1 = (rows' i).1) :
    (Pair.settled rows j).1 = (Pair.settled rows' j).1 := by
  have vectors {m : Nat} (rows : Nat → Pair p n m) :
      (Pair.settled rows j).1 = settledRow LinearMap.id (fun i => (rows i).1) j :=
    settledRow_map (Pair.vector p n m) rows LinearMap.id (Pair.vector p n m) (fun _ => rfl) j
  rw [vectors, vectors]
  exact settledRow_congr same

theorem stage_fst_congr {rows' : Nat → Pair p n m} (same : ∀ k, (rows k).1 = (rows' k).1)
    (i j : Nat) : (stage (Pair.vector p n m) rows i j).1 =
      (stage (Pair.vector p n m) rows' i j).1 := by
  have vectors (rows : Nat → Pair p n m) : (stage (Pair.vector p n m) rows i j).1 =
      stage LinearMap.id (fun k => (rows k).1) i j :=
    stage_map (Pair.vector p n m) rows LinearMap.id (Pair.vector p n m) (fun _ => rfl) i j
  simp only [vectors, same]

theorem pivotsBefore_congr {k : Nat} {rows' : Nat → Pair p n k} {i : Nat}
    (same : ∀ j, j < i → (rows j).1 = (rows' j).1) :
    pivotsBefore rows i = pivotsBefore rows' i := by
  apply List.filterMap_congr
  intro j hj
  have inside := List.mem_range.mp hj
  rw [settled_fst_congr fun k hk => same k (Nat.lt_of_le_of_lt hk inside)]

theorem dependentBefore_congr {k : Nat} {rows' : Nat → Pair p n k} {i : Nat}
    (same : ∀ j, j < i → (rows j).1 = (rows' j).1) :
    dependentBefore rows i = dependentBefore rows' i := by
  apply List.filter_congr
  intro j hj
  have inside := List.mem_range.mp hj
  rw [settled_fst_congr fun k hk => same k (Nat.lt_of_le_of_lt hk inside)]

end RowReduction
