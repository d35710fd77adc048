import Mathlib
import RowReduction.Proofs.Construction

/-!
The storage operations that are not row operations: writing one entry, clearing, identities in
place, growing, and sums of whole matrices. Each has one statement for all encodings, in terms of
the rows as vectors.
-/
namespace RowReduction.RowMatrix

variable [Storage.Memory] {e : Encoding} {p : SmallPrime} {r r' n : Nat} {m other : RowMatrix e}

namespace Shaped

theorem vec_write (h : m.Shaped p r n) {i : Nat} (hi : i < r) (j : Fin n) (value : Nat) :
    (m.write i j value).vec p n = Function.update (m.vec p n) i
      (Function.update (m.vec p n i) j (value : Residue p)) := by
  obtain ⟨-, entries⟩ := h.write_ok hi j.isLt value
  funext k l
  simp only [vec, entries k l l.isLt]
  by_cases row : k = i
  · subst row
    by_cases column : l = j
    · subst column
      simp [ZMod.natCast_mod]
    · have apart : l.val ≠ j.val := fun same => column (Fin.ext same)
      simp [column, apart, vec]
  · simp [row, vec]

theorem putEntry_eq (h : m.Shaped p r n) {i : Nat} (hi : i < r) (j : Fin n) (value : Nat) :
    m.putEntry i j value = .ok (m.write i j value) := by
  have column : m.requireColumn j = .ok () := require_eq_ok.mpr (by simp [h.columns])
  have row : m.requireRow i = .ok () := require_eq_ok.mpr (by simpa [h.rows] using hi)
  simp only [putEntry, column, row, bind, Except.bind]
  rfl

theorem set_eq (h : m.Shaped p r n) {i : Nat} (hi : i < r) (j : Fin n) (value : Nat) :
    m.set i j value = ⟨m.write i j value, .ok ()⟩ :=
  if_pos ⟨h.rows ▸ hi, h.columns ▸ j.isLt⟩

theorem addEntry_ok (h : m.Shaped p r n) {i : Nat} (hi : i < r) (j : Fin n) (value : Nat) :
    ∃ m', m.addEntry i j value = .ok m' ∧ m'.Shaped p r n ∧ m'.vec p n =
      Function.update (m.vec p n) i
        (Function.update (m.vec p n i) j (m.vec p n i j + (value : Residue p))) := by
  have written := h.vec_write hi j (p.sum (m.vec p n i j).val (p.reduce value))
  have sum : ((p.sum (m.vec p n i j).val (p.reduce value) : Nat) : Residue p) =
      m.vec p n i j + (value : Residue p) := by
    rw [SmallPrime.sum, ZMod.natCast_mod, Nat.cast_add, ZMod.natCast_zmod_val, cast_reduce]
  rw [sum] at written
  refine ⟨_, ?_, (h.write_ok hi j.isLt _).1, written⟩
  simp only [addEntry, h.entry_eq hi j, h.prime, bind, Except.bind, h.putEntry_eq hi j]

/-- The matrix with zero rows added at its end. -/
def grown (m : RowMatrix e) (rows : Nat) : RowMatrix e :=
  { m with
    rows
    cells := m.cells ++ Array.replicate (rows * m.rowCells - m.cells.size) e.zeroCell }

theorem row_grown (h : m.Shaped p r n) {i : Nat} (fits : Fits e r' n) (hi : i < r') :
    (grown m r').row i = if i < r then m.row i else (blank e p r' n).row i := by
  have length := fits.length_eq
  obtain ⟨wf, rfl, rfl, rfl⟩ := h
  have last : i * m.rowCells + m.rowCells ≤ r' * m.rowCells := by
    rw [← Nat.succ_mul]
    exact Nat.mul_le_mul_right m.rowCells hi
  apply Array.ext_getElem?
  intro k
  rw [getElem?_row]
  change (if k < m.rowCells then (m.cells ++ Array.replicate
    (r' * m.rowCells - m.cells.size) e.zeroCell)[i * m.rowCells + k]? else none) = _
  by_cases stored : i < m.rows
  · have inside : i * m.rowCells + m.rowCells ≤ m.cells.size := by
      rw [← Nat.succ_mul]
      exact wf.row_stored stored
    rw [if_pos stored, getElem?_row]
    split
    · rw [Array.getElem?_append_left (by omega)]
    · rfl
  · have behind : m.cells.size ≤ i * m.rowCells := by
      rw [wf.size]
      exact Nat.mul_le_mul_right m.rowCells (Nat.le_of_not_lt stored)
    rw [if_neg stored, blank, length, row_replicate r' m.columns i hi]
    simp only [Array.getElem?_replicate]
    split
    · rename_i inRow
      rw [Array.getElem?_append_right (by omega), Array.getElem?_replicate, if_pos (by omega)]
      exact (if_pos inRow).symm
    · rename_i outside
      exact (if_neg outside).symm

/-- Growing keeps the rows that are there, and new rows are zero. -/
theorem resize_grows (h : m.Shaped p r n) (more : r ≤ r') (size : r' ≤ Storage.maxSize)
    (fits : Fits e r' n) :
    ∃ m', m.resize r' = ⟨m', .ok ()⟩ ∧ m'.Shaped p r' n ∧
      ∀ i, i < r' → m'.vec p n i = if i < r then m.vec p n i else 0 := by
  have empty := blank_shaped h.supported size h.columns_le fits
  have rows (i : Nat) (hi : i < r') := h.row_grown fits hi
  have cells : m.cells.size ≤ r' * m.rowCells := by
    rw [h.wellFormed.size, h.rows]
    exact Nat.mul_le_mul_right m.rowCells more
  have length : Storage.length r' m.rowCells = r' * m.rowCells := by
    rw [rowCells, h.columns]
    exact fits.length_eq
  have shaped : (grown m r').Shaped p r' n := by
    refine ⟨⟨h.wellFormed.supported, size, h.wellFormed.columns_le, ?_, ?_, ?_⟩, h.prime, rfl,
      h.columns⟩
    · change (m.cells ++ Array.replicate _ _).size = r' * m.rowCells
      rw [Array.size_append, Array.size_replicate]
      omega
    · change (m.cells ++ Array.replicate _ _).size * e.cellBytes < _
      rw [Array.size_append, Array.size_replicate, Nat.add_sub_cancel' cells, ← length, rowCells,
        h.columns]
      exact fits
    · intro i hi
      change Row.Sound e m.prime m.columns _
      rw [h.prime, h.columns, rows i hi]
      split
      · rename_i stored
        exact h.sound stored
      · exact empty.sound hi
  refine ⟨grown m r', ?_, shaped, ?_⟩
  · unfold resize resizeCells
    rw [length]
    by_cases same : r' * m.rowCells ≤ m.cells.size
    · have none_added : r' * m.rowCells - m.cells.size = 0 := Nat.sub_eq_zero_of_le same
      have whole : m.cells.extract 0 (r' * m.rowCells) = m.cells := by
        rw [Nat.le_antisymm same cells]
        simp
      simp [grown, none_added, whole, same]
    · have allocated : checkAllocation e.cellBytes (r' * m.rowCells) = .ok () := by
        rw [← length, rowCells, h.columns]
        exact if_pos fits
      simp only [if_neg same, allocated]
      rfl
  · intro i hi
    rw [← shaped.row_vec hi, rows i hi]
    split
    · rename_i stored
      exact h.row_vec stored
    · rw [empty.row_vec hi, vec_blank]

/-- Changing the number of rows keeps the rows that are there and stay, and new rows are zero. -/
theorem resize_vec (h : m.Shaped p r n) (size : r' ≤ Storage.maxSize) (fits : Fits e r' n) :
    ∃ m', m.resize r' = ⟨m', .ok ()⟩ ∧ m'.Shaped p r' n ∧
      ∀ i, i < r' → m'.vec p n i = if i < r then m.vec p n i else 0 := by
  by_cases fewer : r' ≤ r
  · obtain ⟨m', run, shaped, rows⟩ := h.resize_ok fewer
    refine ⟨m', run, shaped, ?_⟩
    intro i hi
    rw [rows i hi, if_pos (Nat.lt_of_lt_of_le hi fewer)]
  · exact h.resize_grows (Nat.le_of_not_le fewer) size fits

/-- Growing beyond the memory there is changes nothing. -/
theorem resize_refused (h : m.Shaped p r n) (large : ¬ Fits e r' n) :
    ∃ cells bytes, m.resize r' = ⟨m, .error (.outOfMemory cells bytes)⟩ := by
  have length : Storage.length r' m.rowCells = Storage.length r' (e.rowCells n) := by
    rw [rowCells, h.columns]
  have more : ¬ Storage.length r' (e.rowCells n) ≤ m.cells.size := by
    intro fewer
    apply large
    exact Nat.lt_of_le_of_lt (Nat.mul_le_mul_right e.cellBytes fewer) h.wellFormed.allocated
  obtain ⟨cells, bytes, refused⟩ := checkAllocation_of_not_fits large
  refine ⟨cells, bytes, ?_⟩
  unfold resize resizeCells
  simp only [length, if_neg more, refused]
  rfl

theorem addRows_ok (h : m.Shaped p r n) (h' : other.Shaped p r n) (c : Nat) :
    ∃ m', m.addRows other c = .ok m' ∧ m'.Shaped p r n ∧ ∀ i, i < r →
      m'.vec p n i = m.vec p n i + (c : Residue p) • other.vec p n i := by
  obtain ⟨m', run, shaped, rows⟩ := foldRows_ok (P := fun m : RowMatrix e => m.Shaped p r n)
    (v := fun m => m.vec p n) (f := fun m i => m.addRowOf other i i c 0)
    (g := fun i x => x + (c : Residue p) • other.vec p n i)
    (fun m i hi shaped => shaped.addRowOf_ok h' hi hi c 0 (by simp)) h
  refine ⟨m', ?_, shaped, fun i hi => (rows i).trans (if_pos hi)⟩
  rw [addRows, h.rows]
  exact run

theorem add_ok (h : m.Shaped p r n) (h' : other.Shaped p r n) (c : Nat) :
    ∃ m', m.add other c = .ok ⟨m', .ok ()⟩ ∧ m'.Shaped p r n ∧ ∀ i, i < r →
      m'.vec p n i = m.vec p n i + (c : Residue p) • other.vec p n i := by
  have primes : require (p = other.prime) .differentPrimes = .ok () :=
    require_eq_ok.mpr (by simp [h'.prime])
  have rows : checkWidths m.rows other.rows = .ok () :=
    checkWidths_eq_ok.mpr (h.rows.trans h'.rows.symm)
  unfold add
  simp only [h.prime, primes, h.checkWidths_ok h', rows, bind, Except.bind]
  by_cases vanishes : p.reduce c = 0
  · refine ⟨m, if_pos vanishes, h, ?_⟩
    intro i _
    have cast := cast_reduce p c
    rw [vanishes, Nat.cast_zero] at cast
    rw [← cast, zero_smul, add_zero]
  · obtain ⟨m', run, shaped, sums⟩ := h.addRows_ok h' (p.reduce c)
    refine ⟨m', ?_, shaped, ?_⟩
    · simp only [if_neg vanishes, run]
      rfl
    · intro i hi
      rw [sums i hi, cast_reduce]

end Shaped

end RowReduction.RowMatrix
