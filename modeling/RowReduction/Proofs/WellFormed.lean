import Mathlib
import RowReduction.Proofs.RowSums
import RowReduction.RowMatrix.Construction
import RowReduction.RowMatrix.Lemmas

/-!
The representation invariant of stored matrices: the buffer holds exactly the padded rows, and
every row is sound. A well-formed matrix is determined by its shape and its entries, so comparing
buffers is comparing entries. Replacing a row by a sound one keeps the invariant, and writing one
entry is a case of that.
-/
namespace RowReduction.RowMatrix

variable [Storage.Memory] {e : Encoding} {p : SmallPrime}

/-- Sizes are 64-bit numbers, the buffer was allocated and holds the rows and nothing else. -/
structure WellFormed (m : RowMatrix e) : Prop where
  supported : e.canStore m.prime = true
  rows_le : m.rows ≤ Storage.maxSize
  columns_le : m.columns ≤ Storage.maxSize
  size : m.cells.size = m.rows * m.rowCells
  allocated : m.cells.size * e.cellBytes < Storage.allocationLimit
  sound : ∀ i, i < m.rows → Row.Sound e m.prime m.columns (m.row i)

namespace WellFormed

variable {m : RowMatrix e}

theorem row_stored (wf : m.WellFormed) {i : Nat} (hi : i < m.rows) :
    (i + 1) * m.rowCells ≤ m.cells.size := by
  rw [wf.size]
  exact Nat.mul_le_mul_right m.rowCells hi

theorem column_stored (wf : m.WellFormed) {i j : Nat} (hi : i < m.rows) (hj : j < m.columns) :
    j / e.lanes < m.rowCells := by
  have room := Encoding.columns_le_rowCells (wf.sound i hi).narrow
  rw [Nat.div_lt_iff_lt_mul e.lanes_pos]
  exact Nat.lt_of_lt_of_le hj room

theorem read_eq (wf : m.WellFormed) {i j : Nat} (hi : i < m.rows) (hj : j < m.columns) :
    m.read i j = Row.entry e (m.row i) j :=
  m.read_eq_entry i (wf.column_stored hi hj)

theorem read_lt (wf : m.WellFormed) {i j : Nat} (hi : i < m.rows) (hj : j < m.columns) :
    m.read i j < m.prime.val := by
  rw [wf.read_eq hi hj]
  exact (wf.sound i hi).reduced j

theorem ext {m' : RowMatrix e} (wf : m.WellFormed) (wf' : m'.WellFormed)
    (prime : m.prime = m'.prime) (rows : m.rows = m'.rows) (columns : m.columns = m'.columns)
    (same : ∀ i j, i < m.rows → j < m.columns → m.read i j = m'.read i j) : m = m' := by
  have width : m.rowCells = m'.rowCells := by rw [rowCells, rowCells, columns]
  have row_eq (i : Nat) (hi : i < m.rows) : m.row i = m'.row i := by
    have hi' : i < m'.rows := rows ▸ hi
    apply Row.eq_of_entries
    · rw [(wf.sound i hi).size, (wf'.sound i hi').size, columns]
    · intro j
      by_cases inside : j < m.columns
      · rw [← wf.read_eq hi inside, ← wf'.read_eq hi' (columns ▸ inside)]
        exact same i j hi inside
      · have outside := Nat.le_of_not_lt inside
        rw [(wf.sound i hi).padding j outside, (wf'.sound i hi').padding j (columns ▸ outside)]
  have cells : m.cells = m'.cells := by
    apply Array.ext_getElem?
    intro q
    by_cases stored : q < m.cells.size
    · rw [wf.size] at stored
      obtain ⟨hi, lane⟩ := position_lt stored
      have cell := congrArg (fun r : Array e.Cell => r[q % m.rowCells]?) (row_eq _ hi)
      have position := Nat.div_add_mod' q m.rowCells
      simp only [getElem?_row, ← width, lane, if_true, position] at cell
      exact cell
    · have bound : m'.cells.size ≤ q := by
        rw [wf'.size, ← rows, ← width, ← wf.size]
        exact Nat.le_of_not_lt stored
      rw [Array.getElem?_eq_none (Nat.le_of_not_lt stored), Array.getElem?_eq_none bound]
  cases m
  cases m'
  simp only at prime rows columns cells
  subst prime rows columns cells
  rfl

end WellFormed

theorem wellFormed_replaceRow {m : RowMatrix e} (wf : m.WellFormed) {i : Nat} (hi : i < m.rows)
    {cells : Row e} (sound : Row.Sound e m.prime m.columns cells) :
    (m.replaceRow i cells).WellFormed where
  supported := wf.supported
  rows_le := wf.rows_le
  columns_le := wf.columns_le
  size := (size_replaceRow ..).trans wf.size
  allocated := by
    rw [size_replaceRow]
    exact wf.allocated
  sound k hk := by
    by_cases same : k = i
    · rw [same, row_replaceRow m i cells (wf.row_stored hi) sound.size]
      exact sound
    · rw [row_replaceRow_of_ne m cells same]
      exact wf.sound k hk

theorem read_replaceRow {m : RowMatrix e} (wf : m.WellFormed) {i : Nat} (hi : i < m.rows)
    {cells : Row e} (sound : Row.Sound e m.prime m.columns cells) (k : Nat) {j : Nat}
    (hj : j < m.columns) : (m.replaceRow i cells).read k j =
      if k = i then Row.entry e cells j else m.read k j := by
  have stored := wf.column_stored hi hj
  rw [read_eq_entry _ _ (by rw [rowCells_replaceRow]; exact stored), read_eq_entry m k stored]
  split
  · rename_i same
    rw [same, row_replaceRow m i cells (wf.row_stored hi) sound.size]
  · rename_i apart
    rw [row_replaceRow_of_ne m cells apart]

/-- The row in which one entry was overwritten. -/
def rowWritten (m : RowMatrix e) (i j value : Nat) : Row e :=
  (m.row i).modify (j / e.lanes) fun c => e.writeLane c (j % e.lanes) (m.prime.reduce value)

omit [Storage.Memory] in
theorem write_eq_replaceRow {m : RowMatrix e} {i j : Nat}
    (stored : (i + 1) * m.rowCells ≤ m.cells.size)
    (inside : j / e.lanes < m.rowCells) (value : Nat) :
    m.write i j value = m.replaceRow i (m.rowWritten i j value) := by
  rw [Nat.succ_mul] at stored
  simp only [write, replaceRow, mk.injEq, true_and]
  apply Array.ext_getElem?
  intro q
  rw [Array.getElem?_modify, getElem?_overwriteCells]
  have first := Nat.zero_le (j / e.lanes)
  by_cases inRow : i * m.rowCells ≤ q ∧ q < i * m.rowCells + m.rowCells ∧ q < m.cells.size
  · have column : q - i * m.rowCells < m.rowCells := by omega
    have back : i * m.rowCells + (q - i * m.rowCells) = q := by omega
    rw [if_pos inRow, rowWritten, Array.getD_eq_getD_getElem?, Array.getElem?_modify, getElem?_row,
      if_pos column, back, Array.getElem?_eq_getElem inRow.2.2]
    by_cases hit : j / e.lanes = q - i * m.rowCells
    · rw [if_pos (by omega), if_pos hit, Option.map_some, Option.getD_some]
    · rw [if_neg (by omega), if_neg hit, Option.getD_some]
  · rw [if_neg inRow, if_neg (by omega)]

theorem sound_rowWritten {m : RowMatrix e} (wf : m.WellFormed) {i j : Nat} (hi : i < m.rows)
    (hj : j < m.columns) (value : Nat) :
    Row.Sound e m.prime m.columns (m.rowWritten i j value) := by
  have sound := wf.sound i hi
  have inside : j / e.lanes < Array.size (m.row i) := by
    rw [sound.size]
    exact wf.column_stored hi hj
  have reduced : m.prime.reduce value < m.prime.val := Nat.mod_lt _ m.prime.pos
  have entries := Row.entry_modify wf.supported (m.row i) inside reduced
  refine ⟨sound.supported, sound.narrow, ?_, ?_, ?_⟩
  · rw [rowWritten, Array.size_modify, sound.size]
  · intro k
    rw [rowWritten, entries]
    split
    · exact reduced
    · exact sound.reduced k
  · intro k outside
    rw [rowWritten, entries, if_neg (by omega)]
    exact sound.padding k outside

theorem wellFormed_write {m : RowMatrix e} (wf : m.WellFormed) {i j : Nat} (hi : i < m.rows)
    (hj : j < m.columns) (value : Nat) : (m.write i j value).WellFormed := by
  rw [write_eq_replaceRow (wf.row_stored hi) (wf.column_stored hi hj)]
  exact wellFormed_replaceRow wf hi (sound_rowWritten wf hi hj value)

theorem read_write {m : RowMatrix e} (wf : m.WellFormed) {i j : Nat} (hi : i < m.rows)
    (hj : j < m.columns) (value k : Nat) {l : Nat} (hl : l < m.columns) :
    (m.write i j value).read k l =
      if k = i ∧ l = j then m.prime.reduce value else m.read k l := by
  have sound := wf.sound i hi
  have inside : j / e.lanes < Array.size (m.row i) := by
    rw [sound.size]
    exact wf.column_stored hi hj
  have reduced : m.prime.reduce value < m.prime.val := Nat.mod_lt _ m.prime.pos
  rw [write_eq_replaceRow (wf.row_stored hi) (wf.column_stored hi hj),
    read_replaceRow wf hi (sound_rowWritten wf hi hj value) k hl, rowWritten,
    Row.entry_modify wf.supported (m.row i) inside reduced]
  by_cases row : k = i
  · subst row
    by_cases column : l = j
    · rw [if_pos rfl, if_pos column, if_pos ⟨rfl, column⟩]
    · rw [if_pos rfl, if_neg column, if_neg fun h => column h.2, wf.read_eq hi hl]
  · rw [if_neg row, if_neg fun h => row h.1]

end RowReduction.RowMatrix
