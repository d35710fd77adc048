import Mathlib
import RowReduction.Proofs.Reachable

/-!
Sizes of buffers. The lengths of rows and of buffers saturate, and a saturated length is more than
the allocator can be asked for, so no buffer is ever shorter than its rows. The number of entries in
a packed row does not saturate: a width within a few words of the largest size, which only a matrix
without rows can have, makes it too large for a size.
-/
namespace RowReduction

/-- A buffer of `length` cells for `rows` padded rows. The lengths are 64-bit numbers, the buffer
holds the rows and nothing else, and every row ends within it. -/
structure ExactSizes (e : Encoding) (rows columns length : Nat) : Prop where
  row_le : e.rowCells columns ≤ Storage.maxSize
  columns_le : columns ≤ e.rowEntries columns
  length_eq : length = rows * e.rowCells columns
  length_le : length ≤ Storage.maxSize
  row_end_le : ∀ i, i < rows → (i + 1) * e.rowCells columns ≤ length

namespace Encoding

variable {e : Encoding} {columns : Nat}

theorem rowCells_le (e : Encoding) (columns : Nat) : e.rowCells columns ≤ Storage.maxSize :=
  Storage.align_le_maxSize _ _

/-- A row has room for its entries, even if its length is saturated. -/
theorem columns_le_rowEntries (size : columns ≤ Storage.maxSize) :
    columns ≤ e.rowEntries columns := by
  have cells : (columns + (e.lanes - 1)) / e.lanes ≤ Storage.maxSize := by
    cases e <;> simp only [Encoding.lanes] <;> omega
  have padded : (columns + (e.lanes - 1)) / e.lanes ≤ e.rowCells columns :=
    Storage.le_align (by cases e <;> decide) cells
  cases e <;> simp only [rowEntries, Encoding.lanes] at padded ⊢ <;> omega

/-- A packed row of this width, rounded up to whole words and whole groups of them, has more entries
than a size can tell. -/
def TooWide (e : Encoding) (columns : Nat) : Prop :=
  e = .packed ∧ Storage.maxSize < columns + 255

instance (e : Encoding) (columns : Nat) : Decidable (e.TooWide columns) :=
  inferInstanceAs (Decidable (_ ∧ _))

theorem rowEntries_packed (size : columns ≤ Storage.maxSize) :
    rowEntries .packed columns = (columns + 255) / 256 * 256 := by
  have limit : Storage.maxSize = 18446744073709551615 := rfl
  have words : (columns + 63) / 64 + 3 ≤ Storage.maxSize := by omega
  have cells : rowCells .packed columns = ((columns + 63) / 64 + 3) / 4 * 4 := if_pos words
  have entries : rowEntries .packed columns = rowCells .packed columns * 64 := rfl
  omega

theorem rowEntries_le_iff (size : columns ≤ Storage.maxSize) :
    e.rowEntries columns ≤ Storage.maxSize ↔ ¬ e.TooWide columns := by
  have limit : Storage.maxSize = 18446744073709551615 := rfl
  cases e with
  | generic => simpa [TooWide, rowEntries, Encoding.lanes] using rowCells_le .generic columns
  | batched => simpa [TooWide, rowEntries, Encoding.lanes] using rowCells_le .batched columns
  | packed =>
    rw [rowEntries_packed size, TooWide, limit]
    simp only [true_and]
    omega

end Encoding

/-- A saturated length is larger than what can be asked for. -/
theorem Storage.length_of_capacity {e : Encoding} {rows stride : Nat}
    (granted : Storage.length rows stride * e.cellBytes ≤ Storage.capacityLimit) :
    Storage.length rows stride = rows * stride := by
  have bytes : Storage.length rows stride ≤ Storage.length rows stride * e.cellBytes :=
    Nat.le_mul_of_pos_right _ (by cases e <;> decide)
  have limit : Storage.capacityLimit < Storage.maxSize := by decide
  unfold Storage.length at *
  omega

/-- Every buffer that can be asked for has the size that its matrix needs. -/
theorem ExactSizes.of_capacity {e : Encoding} {rows columns : Nat}
    (size : columns ≤ Storage.maxSize)
    (granted : Storage.length rows (e.rowCells columns) * e.cellBytes ≤ Storage.capacityLimit) :
    ExactSizes e rows columns (Storage.length rows (e.rowCells columns)) where
  row_le := e.rowCells_le columns
  columns_le := Encoding.columns_le_rowEntries size
  length_eq := Storage.length_of_capacity granted
  length_le := Nat.min_le_right _ _
  row_end_le i hi := by
    rw [Storage.length_of_capacity granted]
    exact Nat.mul_le_mul_right _ hi

namespace RowMatrix

variable {e : Encoding} {m : RowMatrix e}

theorem WellFormed.exactSizes [Storage.Memory] (wf : m.WellFormed) :
    ExactSizes e m.rows m.columns m.cells.size := by
  have fits := wf.shaped.fits
  have granted := Nat.le_of_lt_succ (Nat.lt_of_lt_of_le fits Storage.allocationLimit_le)
  have sizes := ExactSizes.of_capacity wf.columns_le granted
  rwa [fits.length_eq, ← rowCells, ← wf.size] at sizes

/-- A row that is too wide for a size takes `2 ^ 61` bytes. -/
theorem WellFormed.rows_of_tooWide [Storage.Memory] (wf : m.WellFormed)
    (wide : e.TooWide m.columns) (memory : Storage.allocationLimit ≤ 1 <<< 61) : m.rows = 0 := by
  obtain ⟨rfl, wide⟩ := wide
  have limit : Storage.maxSize = 18446744073709551615 := rfl
  have entries := Encoding.rowEntries_packed wf.columns_le
  have fits := wf.allocated
  rw [wf.size] at fits
  have total : m.rows * m.rowCells * 8 < Storage.allocationLimit := fits
  have row : m.rowCells * 64 = (m.columns + 255) / 256 * 256 := entries
  have cells : m.rowCells = 288230376151711744 := by
    have := wf.columns_le
    omega
  rw [cells] at total
  omega

theorem stride_eq (size : m.columns ≤ Storage.maxSize) :
    m.stride = if e.TooWide m.columns then .error (.strideTooLarge (e.rowEntries m.columns))
      else .ok (e.rowEntries m.columns) := by
  unfold stride require
  have exact_stride := Encoding.rowEntries_le_iff (e := e) size
  split
  · rename_i wide
    simp [exact_stride, wide, bind, Except.bind]
  · rename_i narrow
    simp [exact_stride, narrow, bind, Except.bind, pure, Except.pure]

end RowMatrix

/-- No size wraps around or is cut off, however a matrix was made or resized: its buffer holds the
padded rows exactly, every row ends in it, and a row has room for the columns. That does not depend
on how much memory there is, as long as no buffer is larger than can be asked for. The number of
entries in a row is a size too, unless the row is packed and too wide; there are no rows then, if
no buffer can have `2 ^ 61` bytes. -/
theorem buffer_sizes_exact [Storage.Memory] {e : Encoding} {m : RowMatrix e}
    (reachable : Reachable ⟨e, m⟩) :
    ExactSizes e m.rows m.columns m.cells.size ∧
    (¬ e.TooWide m.columns → m.stride = .ok (e.rowEntries m.columns) ∧
      e.rowEntries m.columns ≤ Storage.maxSize) ∧
    (e.TooWide m.columns → m.stride = .error (.strideTooLarge (e.rowEntries m.columns)) ∧
      (Storage.allocationLimit ≤ 1 <<< 61 → m.rows = 0)) ∧
    ∀ rows columns : Nat, columns ≤ Storage.maxSize →
      Storage.length rows (e.rowCells columns) * e.cellBytes ≤ Storage.capacityLimit →
      ExactSizes e rows columns (Storage.length rows (e.rowCells columns)) := by
  have wf : m.WellFormed := reachable.wellFormed
  have stride := m.stride_eq wf.columns_le
  refine ⟨wf.exactSizes, ?narrow, ?wide, fun rows columns => ExactSizes.of_capacity⟩
  case narrow =>
    intro narrow
    rw [if_neg narrow] at stride
    exact ⟨stride, (Encoding.rowEntries_le_iff wf.columns_le).mpr narrow⟩
  case wide =>
    intro wide
    rw [if_pos wide] at stride
    exact ⟨stride, wf.rows_of_tooWide wide⟩

/-- Packed rows that are wider than a word, and a buffer larger than memory. -/
theorem buffer_sizes_exact_of_sample :
    let sample := RowMatrix.blank .packed .two 3 100
    Reachable ⟨.packed, sample⟩ ∧ ExactSizes .packed 3 100 12 ∧ sample.stride = .ok 256 ∧
      ExactSizes .packed 2147483648 2147483648 72057594037927936 := by
  intro sample
  have reachable : Reachable ⟨.packed, sample⟩ :=
    (RowMatrix.blank_shaped (by decide) (by decide) (by decide)
      (by decide)).wellFormed.reachable
  obtain ⟨sizes, narrow, -, granted⟩ := buffer_sizes_exact reachable
  have entries : Encoding.packed.rowEntries sample.columns = 256 := by decide
  obtain ⟨stride, -⟩ := narrow (by decide)
  rw [entries] at stride
  exact ⟨reachable, sizes, stride, granted 2147483648 2147483648 (by decide) (by decide)⟩

/-- A matrix without rows is built at every width, and then its stride is no size. -/
theorem stride_too_large_of_new :
    ¬ ∀ (e : Encoding) (p : SmallPrime) (rows columns : Nat) (m : RowMatrix e),
      rows ≤ Storage.maxSize → columns ≤ Storage.maxSize → RowMatrix.new p rows columns = pure m →
      ∃ s, m.stride = .ok s ∧ m.columns ≤ s := by
  intro exact_strides
  have built : RowMatrix.new .two 0 Storage.maxSize =
      pure (RowMatrix.blank .packed .two 0 Storage.maxSize) :=
    RowMatrix.new_of_fits (by decide) (by decide)
  obtain ⟨s, answered, -⟩ := exact_strides .packed .two 0 Storage.maxSize _ (by decide)
    (by decide) built
  have stopped : (RowMatrix.blank .packed .two 0 Storage.maxSize).stride =
      .error (.strideTooLarge 18446744073709551616) := by decide
  cases stopped.symm.trans answered

end RowReduction
