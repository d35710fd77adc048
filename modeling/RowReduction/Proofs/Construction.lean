import Mathlib
import RowReduction.Proofs.RowMoves
import RowReduction.RowMatrix.Construction

/-!
Matrices that are built entry by entry. A buffer that fits in memory can always be allocated, a
filled matrix holds the given entries, identities hold unit vectors, and a copy in the same
encoding is the matrix itself.
-/
namespace RowReduction

/-- A buffer for a matrix of this size can be allocated. -/
def Fits [Storage.Memory] (e : Encoding) (rows columns : Nat) : Prop :=
  Storage.length rows (e.rowCells columns) * e.cellBytes < Storage.allocationLimit

instance [Storage.Memory] (e : Encoding) (rows columns : Nat) : Decidable (Fits e rows columns) :=
  inferInstanceAs (Decidable (_ < _))

namespace Fits

variable [Storage.Memory] {e : Encoding} {rows columns : Nat}

theorem length_lt (fits : Fits e rows columns) :
    Storage.length rows (e.rowCells columns) < Storage.allocationLimit :=
  Nat.lt_of_le_of_lt (Nat.le_mul_of_pos_right _ (by cases e <;> decide)) fits

theorem length_eq (fits : Fits e rows columns) :
    Storage.length rows (e.rowCells columns) = rows * e.rowCells columns := by
  have small := fits.length_lt
  have limit := Storage.allocationLimit_le_maxSize
  unfold Storage.length at *
  omega

theorem of_le {rows' : Nat} (fits : Fits e rows columns) (fewer : rows' ≤ rows) :
    Fits e rows' columns := by
  have cells : rows' * e.rowCells columns ≤ rows * e.rowCells columns :=
    Nat.mul_le_mul_right _ fewer
  apply Nat.lt_of_le_of_lt _ fits
  apply Nat.mul_le_mul_right
  unfold Storage.length
  omega

end Fits

theorem bind_eq_pure {ε α β : Type} {x : ExceptT ε Checked α} {next : α → ExceptT ε Checked β}
    {y : β} : x >>= next = pure y ↔ ∃ a, x = pure a ∧ next a = pure y := by
  constructor
  · intro result
    cases x with
    | error violation => cases result
    | ok answer =>
      cases answer with
      | error failure => cases result
      | ok a => exact ⟨a, rfl, result⟩
  · rintro ⟨a, rfl, last⟩
    exact last

namespace RowMatrix

variable [Storage.Memory] {e f : Encoding} {p : SmallPrime} {r n : Nat}

theorem Shaped.fits {m : RowMatrix e} (h : m.Shaped p r n) : Fits e r n := by
  have small := h.size_lt
  obtain ⟨wf, rfl, rfl, rfl⟩ := h
  have length : Storage.length m.rows (e.rowCells m.columns) = m.rows * m.rowCells :=
    Shaped.length_eq small
  rw [Fits, length, ← wf.size]
  exact wf.allocated

def blank (e : Encoding) (p : SmallPrime) (rows columns : Nat) : RowMatrix e :=
  ⟨p, rows, columns, Array.replicate (Storage.length rows (e.rowCells columns)) e.zeroCell⟩

theorem checkNew_of_fits (supported : e.canStore p = true) (fits : Fits e r n) :
    checkNew e p r n = pure () := by
  have allocated : checkAllocation e.cellBytes (Storage.length r (e.rowCells n)) = .ok () :=
    if_pos fits
  simp only [checkNew, supported, require, if_true, allocated]
  rfl

theorem new_of_fits (supported : e.canStore p = true) (fits : Fits e r n) :
    (new p r n : Build (RowMatrix e)) = pure (blank e p r n) := by
  rw [new, checkNew_of_fits supported fits]
  rfl

theorem checkAllocation_of_not_fits (large : ¬ Fits e r n) :
    ∃ cells bytes, checkAllocation e.cellBytes (Storage.length r (e.rowCells n)) =
      .error (.outOfMemory cells bytes) :=
  ⟨_, _, if_neg large⟩

theorem checkNew_of_not_fits (supported : e.canStore p = true) (large : ¬ Fits e r n) :
    ∃ cells bytes, checkNew e p r n = throw (.outOfMemory cells bytes) := by
  obtain ⟨cells, bytes, refused⟩ := checkAllocation_of_not_fits large
  refine ⟨cells, bytes, ?_⟩
  simp only [checkNew, supported, require, if_true, refused]
  rfl

theorem new_of_not_fits (supported : e.canStore p = true) (large : ¬ Fits e r n) :
    ∃ cells bytes, (new p r n : Build (RowMatrix e)) = throw (.outOfMemory cells bytes) := by
  obtain ⟨cells, bytes, refused⟩ := checkNew_of_not_fits supported large
  refine ⟨cells, bytes, ?_⟩
  rw [new, refused]
  rfl

/-- A matrix is built over a prime that the encoding supports, if its buffer fits. -/
theorem new_eq_pure {m : RowMatrix e} :
    new p r n = pure m ↔ e.canStore p = true ∧ Fits e r n ∧ m = blank e p r n := by
  constructor
  · intro built
    cases supported : e.canStore p with
    | false =>
      simp only [new, checkNew, supported, require] at built
      cases built
    | true =>
      by_cases fits : Fits e r n
      · rw [new_of_fits supported fits] at built
        cases built
        exact ⟨rfl, fits, rfl⟩
      · obtain ⟨_, _, refused⟩ := new_of_not_fits supported fits
        rw [refused] at built
        cases built
  · rintro ⟨supported, fits, rfl⟩
    exact new_of_fits supported fits

omit [Storage.Memory] in
theorem row_replicate (rows columns i : Nat) (hi : i < rows) (p : SmallPrime) :
    (⟨p, rows, columns, Array.replicate (rows * e.rowCells columns) e.zeroCell⟩ :
      RowMatrix e).row i = Array.replicate (e.rowCells columns) e.zeroCell := by
  apply Array.ext_getElem?
  intro k
  have last := Nat.mul_le_mul_right (e.rowCells columns) hi
  rw [Nat.succ_mul] at last
  rw [getElem?_row, rowCells]
  simp only [Array.getElem?_replicate]
  split
  · rw [if_pos (by omega)]
  · rfl

omit [Storage.Memory] in
theorem entry_replicate (e : Encoding) (cells j : Nat) :
    Row.entry e (Array.replicate cells e.zeroCell) j = 0 := by
  rw [Row.entry, Array.getD_eq_getD_getElem?, Array.getElem?_replicate]
  split <;> exact Row.readLane_zeroCell e _

theorem blank_shaped (supported : e.canStore p = true) (rows_le : r ≤ Storage.maxSize)
    (columns_le : n ≤ Storage.maxSize) (fits : Fits e r n) : (blank e p r n).Shaped p r n := by
  have length := fits.length_eq
  refine ⟨⟨supported, rows_le, columns_le, ?_, ?_, ?_⟩, rfl, rfl, rfl⟩
  · rw [blank, Array.size_replicate, length]
    rfl
  · rw [blank, Array.size_replicate]
    exact fits
  · intro i hi
    have narrow : e.rowCells n < Storage.maxSize := by
      have small := fits.length_lt
      have limit := Storage.allocationLimit_le_maxSize
      have one : 1 * e.rowCells n ≤ r * e.rowCells n :=
        Nat.mul_le_mul_right _ (Nat.succ_le_of_lt (Nat.zero_lt_of_lt hi))
      omega
    rw [blank, length, row_replicate r n i hi]
    refine ⟨supported, narrow, Array.size_replicate, ?_, ?_⟩
    · intro j
      rw [entry_replicate]
      exact p.pos
    · intro j _
      exact entry_replicate e _ j

omit [Storage.Memory] in
theorem read_blank (i j : Nat) : (blank e p r n).read i j = 0 := by
  rw [read, blank, Array.getD_eq_getD_getElem?, Array.getElem?_replicate]
  split <;> exact Row.readLane_zeroCell e _

omit [Storage.Memory] in
theorem vec_blank (i : Nat) : (blank e p r n).vec p n i = 0 := by
  funext j
  rw [vec, read_blank, Nat.cast_zero, Pi.zero_apply]

theorem Shaped.write_ok {m : RowMatrix e} (h : m.Shaped p r n) {i j : Nat} (hi : i < r) (hj : j < n)
    (value : Nat) : (m.write i j value).Shaped p r n ∧ ∀ k l, l < n →
      (m.write i j value).read k l = if k = i ∧ l = j then value % p.val else m.read k l := by
  obtain ⟨wf, rfl, rfl, rfl⟩ := h
  exact ⟨⟨wellFormed_write wf hi hj value, rfl, rfl, rfl⟩,
    fun k l hl => read_write wf hi hj value k hl⟩

/-- Going over all positions once, in the order of the rows, where each step changes the entry at its
own position only. What it becomes may depend on what it was. -/
theorem Shaped.foldPositions_ok {m : RowMatrix e} (h : m.Shaped p r n)
    {put : Nat → RowMatrix e → RowMatrix e} (new : Nat → Nat → Nat → Nat)
    (each : ∀ k, k < r * n → ∀ m', m'.Shaped p r n → (put k m').Shaped p r n ∧
      ∀ i j, j < n → (put k m').read i j =
        if i = k / n ∧ j = k % n then new i j (m'.read i j) else m'.read i j) :
    ((r * n).fold (fun k _ filled => put k filled) m).Shaped p r n ∧ ∀ i j, i < r → j < n →
      ((r * n).fold (fun k _ filled => put k filled) m).read i j = new i j (m.read i j) := by
  -- After `k` steps the entries that come first in the order of the rows have been changed.
  have steps (k : Nat) (hk : k ≤ r * n) :
      let filled := k.fold (fun k _ filled => put k filled) m
      filled.Shaped p r n ∧ ∀ i j, j < n → filled.read i j =
        if i * n + j < k then new i j (m.read i j) else m.read i j := by
    induction k with
    | zero => exact ⟨h, by simp⟩
    | succ k ih =>
      obtain ⟨shaped, values⟩ := ih (by omega)
      have position := Nat.div_add_mod' k n
      obtain ⟨changed, entry⟩ := each k (by omega) _ shaped
      simp only [Nat.fold_succ]
      refine ⟨changed, ?_⟩
      intro i j hj
      rw [entry i j hj, values i j hj]
      by_cases here : i = k / n ∧ j = k % n
      · rw [if_pos here, here.1, here.2, if_neg (by omega), if_pos (by omega)]
      · have apart : i * n + j ≠ k := by
          rintro rfl
          apply here
          obtain ⟨first, second⟩ := position_split i hj
          exact ⟨first.symm, second.symm⟩
        have same : i * n + j < k + 1 ↔ i * n + j < k := by omega
        rw [if_neg here]
        simp only [same]
  obtain ⟨shaped, values⟩ := steps (r * n) (Nat.le_refl _)
  refine ⟨shaped, ?_⟩
  intro i j hi hj
  exact (values i j hj).trans (if_pos (position_inside hi hj))

theorem Shaped.fill_ok {m : RowMatrix e} (h : m.Shaped p r n) (entries : Nat → Nat → Nat) :
    (m.fill entries).Shaped p r n ∧
      ∀ i j, i < r → j < n → (m.fill entries).read i j = entries i j % p.val := by
  rw [fill, h.rows, h.columns]
  apply h.foldPositions_ok fun i j _ => entries i j % p.val
  intro k hk m' shaped
  obtain ⟨row, column⟩ := position_lt hk
  obtain ⟨written, entry⟩ := shaped.write_ok row column (entries (k / n) (k % n))
  refine ⟨written, ?_⟩
  intro i j hj
  rw [entry i j hj]
  split
  · rename_i here
    rw [here.1, here.2]
  · rfl

theorem Shaped.fillNonzero_ok {m : RowMatrix e} (h : m.Shaped p r n) (entries : Nat → Nat → Nat) :
    (m.fillNonzero entries).Shaped p r n ∧ ∀ i j, i < r → j < n →
      (m.fillNonzero entries).read i j =
        if entries i j = 0 then m.read i j else entries i j % p.val := by
  rw [fillNonzero, h.rows, h.columns]
  apply h.foldPositions_ok fun i j old => if entries i j = 0 then old else entries i j % p.val
  intro k hk m' shaped
  obtain ⟨row, column⟩ := position_lt hk
  by_cases zero : entries (k / n) (k % n) = 0
  · simp only [zero, if_true]
    refine ⟨shaped, ?_⟩
    intro i j _
    split
    · rename_i here
      rw [here.1, here.2, if_pos zero]
    · rfl
  · obtain ⟨written, entry⟩ := shaped.write_ok row column (entries (k / n) (k % n))
    simp only [zero, if_false]
    refine ⟨written, ?_⟩
    intro i j hj
    rw [entry i j hj]
    split
    · rename_i here
      rw [here.1, here.2, if_neg zero]
    · rfl

/-- The matrix with the given entries, reduced modulo the prime. -/
def tabulate (e : Encoding) (p : SmallPrime) (r n : Nat) (entries : Nat → Nat → Nat) :
    RowMatrix e :=
  (blank e p r n).fill entries

theorem tabulate_shaped (supported : e.canStore p = true) (rows_le : r ≤ Storage.maxSize)
    (columns_le : n ≤ Storage.maxSize) (fits : Fits e r n) (entries : Nat → Nat → Nat) :
    (tabulate e p r n entries).Shaped p r n :=
  ((blank_shaped supported rows_le columns_le fits).fill_ok entries).1

theorem read_tabulate (supported : e.canStore p = true) (rows_le : r ≤ Storage.maxSize)
    (columns_le : n ≤ Storage.maxSize) (fits : Fits e r n) (entries : Nat → Nat → Nat) {i j : Nat}
    (hi : i < r) (hj : j < n) : (tabulate e p r n entries).read i j = entries i j % p.val :=
  ((blank_shaped supported rows_le columns_le fits).fill_ok entries).2 i j hi hj

theorem vec_tabulate (supported : e.canStore p = true) (rows_le : r ≤ Storage.maxSize)
    (columns_le : n ≤ Storage.maxSize) (fits : Fits e r n) (entries : Nat → Nat → Nat) {i : Nat}
    (hi : i < r) :
    (tabulate e p r n entries).vec p n i = fun j : Fin n => (entries i j : Residue p) := by
  funext j
  rw [vec, read_tabulate supported rows_le columns_le fits entries hi j.isLt, ZMod.natCast_mod]

theorem grid_tabulate (supported : e.canStore p = true) (rows_le : r ≤ Storage.maxSize)
    (columns_le : n ≤ Storage.maxSize) (fits : Fits e r n) (entries : Nat → Nat → Nat) :
    (tabulate e p r n entries).grid p r n =
      fun (i : Fin r) (j : Fin n) => (entries i j : Residue p) := by
  funext i
  exact vec_tabulate supported rows_le columns_le fits entries i.isLt

/-- Entries that are zero need not be written to a matrix that is. -/
theorem fillNonzero_blank (supported : e.canStore p = true) (rows_le : r ≤ Storage.maxSize)
    (columns_le : n ≤ Storage.maxSize) (fits : Fits e r n) (entries : Nat → Nat → Nat) :
    (blank e p r n).fillNonzero entries = tabulate e p r n entries := by
  have empty := blank_shaped supported rows_le columns_le fits
  obtain ⟨shaped, values⟩ := empty.fillNonzero_ok entries
  apply shaped.ext (tabulate_shaped supported rows_le columns_le fits entries)
  intro i hi
  funext j
  rw [vec, vec, values i j hi j.isLt, read_blank,
    read_tabulate supported rows_le columns_le fits entries hi j.isLt]
  split
  · rename_i zero
    rw [zero, Nat.zero_mod]
  · rfl

theorem Shaped.tabulate_eq {m : RowMatrix e} (h : m.Shaped p r n) {entries : Nat → Nat → Nat}
    (same : ∀ i j, i < r → j < n → entries i j = m.read i j) : tabulate e p r n entries = m := by
  apply (tabulate_shaped h.supported h.rows_le h.columns_le h.fits entries).ext h
  intro i hi
  funext j
  rw [vec, vec, read_tabulate h.supported h.rows_le h.columns_le h.fits entries hi j.isLt,
    same i j hi j.isLt, Nat.mod_eq_of_lt (h.read_lt hi j.isLt)]

/-- The matrix with the given entries, if its buffer can be allocated. -/
def tabulated (e : Encoding) (p : SmallPrime) (r n : Nat) (entries : Nat → Nat → Nat) :
    Build (RowMatrix e) := do
  checkNew e p r n
  return tabulate e p r n entries

theorem tabulated_of_fits (supported : e.canStore p = true) (fits : Fits e r n)
    (entries : Nat → Nat → Nat) : tabulated e p r n entries = pure (tabulate e p r n entries) := by
  rw [tabulated, checkNew_of_fits supported fits]
  rfl

theorem tabulated_of_not_fits (supported : e.canStore p = true) (large : ¬ Fits e r n)
    (entries : Nat → Nat → Nat) :
    ∃ cells bytes, tabulated e p r n entries = throw (.outOfMemory cells bytes) := by
  obtain ⟨cells, bytes, refused⟩ := checkNew_of_not_fits supported large
  refine ⟨cells, bytes, ?_⟩
  rw [tabulated, refused]
  rfl

/-- A copy is a table of the entries, whatever its encoding. -/
theorem Shaped.recode_eq {m : RowMatrix e} (h : m.Shaped p r n) (supported : f.canStore p = true) :
    m.recode f = tabulated f p r n m.read := by
  have target : require (f.canStore p) (.cannotStore p.val f.name) = .ok () :=
    require_eq_ok.mpr supported
  by_cases fits : Fits f r n
  · simp only [recode, h.prime, h.rows, h.columns, target, new_of_fits supported fits, pure_bind,
      fillNonzero_blank supported h.rows_le h.columns_le fits, tabulated_of_fits supported fits]
    rfl
  · obtain ⟨cells, bytes, refused⟩ := checkNew_of_not_fits supported fits
    simp only [recode, h.prime, h.rows, h.columns, target, new, tabulated, refused]
    rfl

/-- A copy in another encoding holds the same vectors. -/
theorem Shaped.recode_ok {m : RowMatrix e} (h : m.Shaped p r n) (supported : f.canStore p = true)
    (fits : Fits f r n) : ∃ m' : RowMatrix f, m.recode f = pure m' ∧ m'.Shaped p r n ∧
      ∀ i, i < r → m'.vec p n i = m.vec p n i := by
  refine ⟨tabulate f p r n m.read, ?_,
    tabulate_shaped supported h.rows_le h.columns_le fits m.read, ?_⟩
  · rw [h.recode_eq supported, tabulated_of_fits supported fits]
  · intro i hi
    funext j
    have small := h.read_lt hi j.isLt
    rw [vec, read_tabulate supported h.rows_le h.columns_le fits m.read hi j.isLt,
      Nat.mod_eq_of_lt small]
    rfl

/-- Only the entries in range matter, and only modulo the prime. -/
theorem tabulated_congr (supported : e.canStore p = true) (rows_le : r ≤ Storage.maxSize)
    (columns_le : n ≤ Storage.maxSize) {entries entries' : Nat → Nat → Nat}
    (same : ∀ i j, i < r → j < n → entries i j % p.val = entries' i j % p.val) :
    tabulated e p r n entries = tabulated e p r n entries' := by
  by_cases fits : Fits e r n
  · have shaped := tabulate_shaped supported rows_le columns_le fits
    have equal : tabulate e p r n entries = tabulate e p r n entries' := by
      apply (shaped entries).ext (shaped entries')
      intro i hi
      funext j
      rw [vec, vec, read_tabulate supported rows_le columns_le fits entries hi j.isLt,
        read_tabulate supported rows_le columns_le fits entries' hi j.isLt, same i j hi j.isLt]
    rw [tabulated_of_fits supported fits, tabulated_of_fits supported fits, equal]
  · obtain ⟨cells, bytes, refused⟩ := checkNew_of_not_fits supported fits
    rw [tabulated, tabulated, refused]
    rfl

theorem recode_tabulate (supported : e.canStore p = true) (supported' : f.canStore p = true)
    (rows_le : r ≤ Storage.maxSize) (columns_le : n ≤ Storage.maxSize) (fits : Fits e r n)
    (fits' : Fits f r n) (entries : Nat → Nat → Nat) :
    (tabulate e p r n entries).recode f = pure (tabulate f p r n entries) := by
  have shaped := tabulate_shaped supported rows_le columns_le fits entries
  rw [shaped.recode_eq supported', ← tabulated_of_fits supported' fits' entries]
  apply tabulated_congr supported' rows_le columns_le
  intro i j hi hj
  rw [read_tabulate supported rows_le columns_le fits entries hi hj, Nat.mod_mod]

/-- A copy can only be had in an encoding that supports the prime, and if its buffer fits. -/
theorem Shaped.of_recode {m : RowMatrix e} (h : m.Shaped p r n) {m' : RowMatrix f}
    (converted : m.recode f = pure m') :
    m'.Shaped p r n ∧ ∀ i, i < r → m'.vec p n i = m.vec p n i := by
  have checks := converted
  simp only [recode, h.prime, h.rows, h.columns, bind_eq_pure] at checks
  obtain ⟨_, _, _, allocated, _⟩ := checks
  obtain ⟨supported, fits, _⟩ := new_eq_pure.mp allocated
  obtain ⟨copy, recoded, shaped, values⟩ := h.recode_ok supported fits
  rw [recoded] at converted
  cases converted
  exact ⟨shaped, values⟩

/-- Copying never fails and gives the matrix itself. -/
theorem Shaped.copy_eq {m : RowMatrix e} (h : m.Shaped p r n) : m.copy = pure m := by
  obtain ⟨m', copied, shaped, values⟩ :=
    h.recode_ok h.supported h.fits
  rw [copy, copied, shaped.ext h values]

def unitRows (m : RowMatrix e) (k : Nat) : RowMatrix e :=
  k.fold (fun i _ unit => unit.write i i 1) m

theorem unitRows_ok {m : RowMatrix e} (h : m.Shaped p n n)
    (zero : ∀ i j, j < n → m.read i j = 0) (k : Nat) (hk : k ≤ n) :
    (m.unitRows k).Shaped p n n ∧ ∀ i j, j < n →
      (m.unitRows k).read i j = if i < k ∧ j = i then 1 else 0 := by
  induction k with
  | zero => exact ⟨h, fun i j hj => by simpa [unitRows] using zero i j hj⟩
  | succ k ih =>
    obtain ⟨shaped, values⟩ := ih (by omega)
    obtain ⟨written, entry⟩ := shaped.write_ok (i := k) (j := k) (by omega) (by omega) 1
    have step : m.unitRows (k + 1) = (m.unitRows k).write k k 1 := by
      simp [unitRows, Nat.fold_succ]
    rw [step]
    refine ⟨written, ?_⟩
    intro i j hj
    rw [entry i j hj, values i j hj]
    have one : 1 % p.val = 1 := Nat.mod_eq_of_lt p.two_le
    by_cases last : i = k ∧ j = k
    · rw [if_pos last, if_pos ⟨by omega, by omega⟩, one]
    · rw [if_neg last]
      congr 1
      rw [eq_iff_iff]
      omega

theorem Shaped.clear_eq {m : RowMatrix e} (h : m.Shaped p r n) : m.clear = blank e p r n := by
  have length := h.fits.length_eq
  obtain ⟨wf, rfl, rfl, rfl⟩ := h
  simp only [clear, blank, wf.size, length, rowCells]

/-- Row `i` of an identity is the `i`-th unit vector. -/
theorem Shaped.toIdentity_ok {m : RowMatrix e} (h : m.Shaped p n n) :
    ∃ unit, m.toIdentity = .ok unit ∧ unit.Shaped p n n ∧
      ∀ i, i < n → unit.vec p n i = fun l => if l.val = i then 1 else 0 := by
  have shaped := blank_shaped h.supported h.rows_le h.columns_le h.fits
  obtain ⟨unit, values⟩ := unitRows_ok shaped (fun i j _ => read_blank i j) n (Nat.le_refl n)
  refine ⟨(blank e p n n).unitRows n, ?_, unit, ?_⟩
  · have square : require (m.rows = m.columns) .notSquare = .ok () :=
      require_eq_ok.mpr (by simp [h.rows, h.columns])
    have filled : m.rows.fold (fun i _ unit => unit.write i i 1) m.clear =
        (blank e p n n).unitRows n := by
      rw [h.clear_eq, h.rows]
      rfl
    simp only [toIdentity, square, filled]
    rfl
  · intro i hi
    funext l
    rw [vec, values i l l.isLt]
    by_cases here : l.val = i
    · rw [if_pos ⟨hi, here⟩, if_pos here, Nat.cast_one]
    · rw [if_neg fun h => here h.2, if_neg here, Nat.cast_zero]

theorem identity_ok (supported : e.canStore p = true) (size : n ≤ Storage.maxSize)
    (fits : Fits e n n) : ∃ m : RowMatrix e, identity p n = pure m ∧ m.Shaped p n n ∧
      ∀ i, i < n → m.vec p n i = fun l => if l.val = i then 1 else 0 := by
  obtain ⟨unit, built, shaped, rows⟩ := (blank_shaped supported size size fits).toIdentity_ok
  refine ⟨unit, ?_, shaped, rows⟩
  simp only [identity, new_of_fits supported fits, pure_bind, built]
  rfl

end RowMatrix

end RowReduction
