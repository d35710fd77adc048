import RowReduction.RowMatrix.Basic
/-!
What writing does to the rows of a matrix. A replaced row is the new one, and replacing it leaves
every other row as it was. An entry of a matrix is the entry of its row.
-/
namespace RowReduction.RowMatrix

variable {e : Encoding}

@[simp]
theorem size_write (m : RowMatrix e) (i j value : Nat) :
    (m.write i j value).cells.size = m.cells.size := by
  simp [write]

@[simp]
theorem size_replaceRow (m : RowMatrix e) (i : Nat) (cells : Row e) :
    (m.replaceRow i cells).cells.size = m.cells.size := by
  simp [replaceRow]

@[simp]
theorem rowCells_replaceRow (m : RowMatrix e) (i : Nat) (cells : Row e) :
    (m.replaceRow i cells).rowCells = m.rowCells := rfl

theorem getElem?_row (m : RowMatrix e) (i k : Nat) :
    (m.row i)[k]? = if k < m.rowCells then m.cells[i * m.rowCells + k]? else none := by
  unfold row
  rw [Array.getElem?_extract]
  by_cases inRow : k < m.rowCells
  · by_cases stored : i * m.rowCells + k < m.cells.size
    · rw [if_pos (by omega), if_pos inRow]
    · rw [if_neg (by omega), if_pos inRow, Array.getElem?_eq_none (by omega)]
  · rw [if_neg (by omega), if_neg inRow]

theorem row_disjoint {i j width k : Nat} (hk : k < width) (hij : j ≠ i) :
    j * width + k < i * width ∨ i * width + width ≤ j * width + k := by
  rcases Nat.lt_or_gt_of_ne hij with before | after
  · have := Nat.mul_le_mul_right width before
    rw [Nat.succ_mul] at this
    omega
  · have := Nat.mul_le_mul_right width after
    rw [Nat.succ_mul] at this
    omega

theorem row_replaceRow (m : RowMatrix e) (i : Nat) (cells : Row e)
    (stored : (i + 1) * m.rowCells ≤ m.cells.size) (full : cells.size = m.rowCells) :
    (m.replaceRow i cells).row i = cells := by
  rw [Nat.succ_mul] at stored
  apply Array.ext_getElem?
  intro k
  rw [getElem?_row, rowCells_replaceRow]
  by_cases inRow : k < m.rowCells
  · have value : cells[k]? = some (cells.getD k e.zeroCell) := by
      simp [Array.getD, full, inRow]
    simp only [replaceRow, getElem?_overwriteCells]
    rw [if_pos inRow, if_pos (by omega), value, Nat.add_sub_cancel_left]
  · rw [if_neg inRow, Array.getElem?_eq_none (by omega)]

theorem row_replaceRow_of_ne (m : RowMatrix e) {i j : Nat} (cells : Row e) (hij : j ≠ i) :
    (m.replaceRow i cells).row j = m.row j := by
  apply Array.ext_getElem?
  intro k
  rw [getElem?_row, getElem?_row, rowCells_replaceRow]
  by_cases inRow : k < m.rowCells
  · have apart := row_disjoint inRow hij
    simp only [replaceRow, getElem?_overwriteCells]
    rw [if_pos inRow, if_pos inRow, if_neg (by omega)]
  · rw [if_neg inRow, if_neg inRow]

theorem read_eq_entry (m : RowMatrix e) (i : Nat) {j : Nat} (inRow : j / e.lanes < m.rowCells) :
    m.read i j = Row.entry e (m.row i) j := by
  simp only [read, Row.entry, Array.getD_eq_getD_getElem?, getElem?_row, inRow, if_true]

end RowReduction.RowMatrix
