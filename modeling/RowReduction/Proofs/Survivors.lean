import Mathlib
import RowReduction.Proofs.Preimages
import RowReduction.Proofs.Quotient

/-!
The rows that an elimination keeps. They are the settled rows that are not zero, and they alone
decide what is left of any row that comes later. An elimination that was stopped has moved the rows
it keeps to the front, with rows of their span behind them and reduced rows after those. Eliminating
these again settles the same rows: the stale ones vanish, and the others are not changed.
-/
namespace RowReduction

namespace EchelonForm

variable {K : Type*} [Field K] [DecidableEq K] {n i m : Nat} {vectors others : Nat → Fin n → K}

def survivors (vectors : Nat → Fin n → K) (m : Nat) : List (Fin n → K) :=
  (settled (plain K n) vectors m).filter (· ≠ 0)

theorem survivors_congr (same : ∀ j, j < m → vectors j = others j) :
    survivors vectors m = survivors others m := by
  rw [survivors, survivors, settled_congr same]

theorem reduce_survivors (x : Fin n → K) : reduce (plain K n) (survivors vectors m) x =
    reduce (plain K n) (settled (plain K n) vectors m) x :=
  reduce_filter _ x

theorem isEchelon_survivors (vectors : Nat → Fin n → K) (m : Nat) :
    IsEchelon (plain K n) (survivors vectors m) :=
  (isEchelon_settled m).filter _

theorem ne_zero_of_mem_survivors {v : Fin n → K} (member : v ∈ survivors vectors m) : v ≠ 0 := by
  simpa using (List.mem_filter.mp member).2

theorem span_survivors : Submodule.span K {v | v ∈ survivors vectors m} =
    Submodule.span K (vectors '' Set.Iio m) := by
  have nonzero : {v | v ∈ survivors vectors m} =
      {v | v ∈ settled (plain K n) vectors m} \ {0} := by
    ext v
    simp [survivors]
  rw [nonzero, Submodule.span_sdiff_singleton_zero, span_settled]

theorem length_survivors_le : (survivors vectors m).length ≤ m := by
  calc (survivors vectors m).length ≤ (settled (plain K n) vectors m).length :=
        List.length_filter_le _ _
    _ = m := by rw [settled_eq_map, List.length_map, List.length_range]

/-- After the first rows, those that are kept of the others are kept of the others reduced. -/
theorem survivors_add (vectors : Nat → Fin n → K) (k j : Nat) : survivors vectors (k + j) =
    survivors vectors k ++
      survivors (fun t => reduce (plain K n) (survivors vectors k) (vectors (k + t))) j := by
  simp only [reduce_survivors]
  rw [survivors, settled_add, List.filter_append]
  rfl

theorem survivors_isPrefix (vectors : Nat → Fin n → K) {k : Nat} (fewer : k ≤ m) :
    survivors vectors k <+: survivors vectors m := by
  obtain ⟨j, rfl⟩ := Nat.exists_eq_add_of_le fewer
  exact ⟨_, (survivors_add vectors k j).symm⟩

theorem survivors_of_zero (zero : ∀ j, j < m → vectors j = 0) : survivors vectors m = [] := by
  rw [survivors, List.filter_eq_nil_iff]
  intro v member
  obtain ⟨j, hj, rfl⟩ := mem_settled.mp member
  simp [settledRow, zero j hj]

/-- Rows in echelon form are all kept, unless they are zero. -/
theorem survivors_of_kept {kept : List (Fin n → K)} (echelon : IsEchelon (plain K n) kept)
    (nonzero : ∀ v ∈ kept, v ≠ 0) (front : (List.range kept.length).map vectors = kept) :
    survivors vectors kept.length = kept := by
  rw [← front] at echelon
  rw [survivors, settled_of_echelon echelon, front, List.filter_eq_self]
  intro v member
  exact decide_eq_true (nonzero v member)

/-- A row that is reduced already is not changed. -/
theorem reduce_reduced {rows : List (Fin n → K)} (echelon : IsEchelon (plain K n) rows)
    (x : Fin n → K) : reduce (plain K n) rows (reduce (plain K n) rows x) =
      reduce (plain K n) rows x :=
  reduce_of_zero fun _ member _ leads => view_reduce_lead echelon member leads x

/-- Vectors that differ by an element of the span are reduced to the same vector. -/
theorem reduce_survivors_congr {x y : Fin n → K}
    (change : y - x ∈ Submodule.span K (vectors '' Set.Iio m)) :
    reduce (plain K n) (survivors vectors m) y = reduce (plain K n) (survivors vectors m) x := by
  rw [← sub_eq_zero, ← map_sub, reduce_survivors, reduce_settled_eq_zero]
  exact change

/-- An elimination that was stopped after `i` rows is taken up again from the start. -/
theorem survivors_resumed (visited : i ≤ m)
    (kept : (List.range (survivors vectors i).length).map others = survivors vectors i)
    (stale : ∀ q, (survivors vectors i).length ≤ q → q < i →
      others q ∈ Submodule.span K (vectors '' Set.Iio i))
    (ahead : ∀ q, i ≤ q → q < m →
      others q = reduce (plain K n) (survivors vectors i) (vectors q)) :
    survivors others m = survivors vectors m := by
  have front : survivors others (survivors vectors i).length = survivors vectors i :=
    survivors_of_kept (isEchelon_survivors vectors i) (fun _ => ne_zero_of_mem_survivors) kept
  have fewer : (survivors vectors i).length ≤ i := length_survivors_le
  obtain ⟨gap, parts⟩ := Nat.exists_eq_add_of_le fewer
  obtain ⟨later, rfl⟩ := Nat.exists_eq_add_of_le visited
  -- The kept rows reduce the stale rows to zero, so nothing is kept of the gap.
  have vanish : survivors (fun t => reduce (plain K n) (survivors vectors i)
      (others ((survivors vectors i).length + t))) gap = [] := by
    apply survivors_of_zero
    intro t ht
    rw [reduce_survivors, reduce_settled_eq_zero]
    exact stale _ (Nat.le_add_right _ t) (by omega)
  have position : i + later = (survivors vectors i).length + (gap + later) := by omega
  rw [survivors_add vectors i later, position, survivors_add others, front, survivors_add _ gap,
    vanish, List.nil_append]
  congr 1
  apply survivors_congr
  intro t ht
  have place : (survivors vectors i).length + (gap + t) = i + t := by omega
  rw [reduce_nil, place, ahead (i + t) (Nat.le_add_right i t) (by omega),
    reduce_reduced (isEchelon_survivors vectors i)]

end EchelonForm

namespace RowMatrix

open EchelonForm

variable {e : Encoding} {p : SmallPrime} {k n r : Nat} {a a' image left left' : RowMatrix e}

/-- The survivors of the first `i` rows are the settled rows of the pivots found in them. -/
theorem survivors_eq_map (a : RowMatrix e) (i : Nat) :
    survivors (a.vec a.prime a.columns) i =
      (pivotsBefore a.recordedRows i).map fun pivot => (a.settledPair pivot.row).1 := by
  have found : (pivotsBefore a.recordedRows i).map (fun pivot => a.settledPair pivot.row) = _ :=
    map_pivotsBefore i
  have pairs := congrArg (List.map (Pair.vector a.prime a.columns a.rows)) found
  rw [List.map_map] at pairs
  rw [survivors, ← settled_fst (m := a.rows), List.filter_map]
  exact pairs.symm

section

variable [Storage.Memory]

theorem HoldsImage.map_vec (holds : a.HoldsImage left) (h : a.Shaped p r n) :
    (List.range left.rows).map (left.vec p n) = survivors (a.vec p n) r := by
  obtain ⟨-, rfl, rfl, rfl⟩ := h
  rw [holds.shaped.rows, survivors_eq_map]
  exact map_range_length holds.rows

/-- Matrices with the same survivors are eliminated to the same image. -/
theorem HoldsImage.eq_of_survivors {r' : Nat} (holds : a.HoldsImage left)
    (holds' : a'.HoldsImage left') (h : a.Shaped p r n) (h' : a'.Shaped p r' n)
    (same : survivors (a'.vec p n) r' = survivors (a.vec p n) r) : left' = left := by
  have rows := (holds'.map_vec h').trans (same.trans (holds.map_vec h).symm)
  have count : left'.rows = left.rows := by simpa using congrArg List.length rows
  have shaped' := holds'.left_shaped h'
  rw [count] at rows shaped'
  apply shaped'.ext (holds.left_shaped h)
  intro i inside
  exact List.map_inj_left.mp rows i (List.mem_range.mpr inside)

/-- The rows of an image are the survivors among themselves. -/
theorem HoldsImage.survivors_eq (holds : a.HoldsImage left) (h : a.Shaped p r n) :
    survivors (left.vec p n) left.rows = survivors (a.vec p n) r := by
  have rows := holds.map_vec h
  have count : (survivors (a.vec p n) r).length = left.rows := by
    rw [← rows, List.length_map, List.length_range]
  rw [← count] at rows ⊢
  exact survivors_of_kept (isEchelon_survivors (a.vec p n) r)
    (fun _ => ne_zero_of_mem_survivors) rows

/-- The rows that an interrupted elimination leaves have the survivors of the initial ones. -/
theorem HoldsVisited.survivors_eq {i : Nat} (visited : a.HoldsVisited i left) (inside : i ≤ a.rows) :
    survivors (left.vec a.prime a.columns) a.rows = survivors (a.vec a.prime a.columns) a.rows := by
  have count : (survivors (a.vec a.prime a.columns) i).length =
      (pivotsBefore a.recordedRows i).length := by
    rw [survivors_eq_map, List.length_map]
  have others (q : Nat) (behind : (survivors (a.vec a.prime a.columns) i).length ≤ q)
      (hq : q < a.rows) : left.vec a.prime a.columns q =
        stage (plain (Residue a.prime) a.columns) (a.vec a.prime a.columns) i q := by
    rw [visited.others q (count ▸ behind) hq]
    exact stage_map (Pair.vector a.prime a.columns a.rows) a.recordedRows
      (plain (Residue a.prime) a.columns) (Pair.vector a.prime a.columns a.rows) (fun _ => rfl) i q
  apply survivors_resumed inside
  · rw [count, survivors_eq_map]
    exact map_range_length visited.kept
  · intro q behind hq
    rw [others q behind (by omega), stage_of_visited (Nat.le_of_lt hq),
      ← span_settled (plain (Residue a.prime) a.columns)]
    exact Submodule.subset_span (mem_settled.mpr ⟨q, hq, rfl⟩)
  · intro q behind hq
    rw [others q (Nat.le_trans length_survivors_le behind) hq, stage_of_le behind,
      reduce_survivors]

/-! Rows that are reduced by rows in echelon form. -/

end

/-- Rows in echelon form reduce as an elimination of them does. -/
theorem reduce_image (echelon : EchelonWithZeros (image.grid p k n)) (x : Fin n → Residue p) :
    reduce (plain (Residue p) n) ((List.range k).map (image.vec p n)) x =
      reduce (plain (Residue p) n) (survivors (image.vec p n) k) x := by
  rw [reduce_survivors, settled_vec echelon]

/-- What the first rows of an image change is an element of its row space. -/
theorem reduce_image_sub_mem {i : Nat} (inside : i ≤ k) (x : Fin n → Residue p) :
    reduce (plain (Residue p) n) ((List.range i).map (image.vec p n)) x - x ∈
      rowSpan (image.grid p k n) := by
  apply reduce_sub_mem
  intro v member _
  obtain ⟨j, hj, rfl⟩ := List.mem_map.mp member
  have row : j < k := Nat.lt_of_lt_of_le (List.mem_range.mp hj) inside
  exact Submodule.subset_span ⟨⟨j, row⟩, rfl⟩

/-- A change by an element of the row space has no effect on what is left in the end. -/
theorem reduce_image_congr (echelon : EchelonWithZeros (image.grid p k n)) {x y : Fin n → Residue p}
    (change : y - x ∈ rowSpan (image.grid p k n)) :
    reduce (plain (Residue p) n) ((List.range k).map (image.vec p n)) y =
      reduce (plain (Residue p) n) ((List.range k).map (image.vec p n)) x := by
  rw [rowSpan, range_row] at change
  rw [reduce_image echelon, reduce_image echelon, reduce_survivors_congr change]

end RowMatrix

end RowReduction
