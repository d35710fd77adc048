import Mathlib
import RowReduction.Row
import RowReduction.Proofs.Residues

/-!
What the three encodings do to a padded row, said once for all of them through the entries. A row is
sound if it has its full length, holds residues only and nothing in its padding. Sums and the search
for the first nonzero entry then mean the same in every encoding.
-/
namespace RowReduction

section Positions

/-! Position `i * n + j` of a table with `n` columns that is listed row by row. -/

variable {r n : Nat}

theorem position_lt {k : Nat} (inside : k < r * n) : k / n < r ∧ k % n < n := by
  have positive : 0 < n := by
    apply Nat.pos_of_ne_zero
    rintro rfl
    omega
  exact ⟨(Nat.div_lt_iff_lt_mul positive).mpr inside, Nat.mod_lt k positive⟩

theorem position_inside {i j : Nat} (hi : i < r) (hj : j < n) : i * n + j < r * n :=
  calc i * n + j < i * n + n := Nat.add_lt_add_left hj _
    _ = (i + 1) * n := (Nat.succ_mul _ _).symm
    _ ≤ r * n := Nat.mul_le_mul_right _ hi

theorem position_split (i : Nat) {j : Nat} (hj : j < n) :
    (i * n + j) / n = i ∧ (i * n + j) % n = j := by
  rw [Nat.mul_comm, Nat.mul_add_div (Nat.zero_lt_of_lt hj), Nat.div_eq_of_lt hj, Nat.mul_add_mod,
    Nat.mod_eq_of_lt hj]
  exact ⟨rfl, rfl⟩

end Positions

theorem align_of_lt {n multiple : Nat} (positive : 0 < multiple)
    (narrow : Storage.align n multiple < Storage.maxSize) :
    n ≤ Storage.align n multiple ∧ multiple ∣ Storage.align n multiple := by
  unfold Storage.align at *
  split at narrow
  · rename_i small
    rw [if_pos small]
    have division := Nat.div_add_mod (n + (multiple - 1)) multiple
    have remainder := Nat.mod_lt (n + (multiple - 1)) positive
    rw [Nat.mul_comm] at division
    exact ⟨by omega, Nat.dvd_mul_left _ _⟩
  · exact absurd narrow (Nat.lt_irrefl _)

namespace Encoding

theorem lanes_pos (e : Encoding) : 0 < e.lanes := by cases e <;> decide

theorem columns_le_rowCells {e : Encoding} {columns : Nat}
    (narrow : e.rowCells columns < Storage.maxSize) : columns ≤ e.rowCells columns * e.lanes := by
  have bound := (align_of_lt (by cases e <;> decide) narrow).1
  cases e <;> simp only [rowCells, lanes] at bound ⊢ <;> omega

theorem word_le_rowCells {e : Encoding} {columns : Nat}
    (narrow : e.rowCells columns < Storage.maxSize) (positive : 0 < columns) :
    8 ≤ e.rowCells columns * e.cellBytes := by
  have cells : 0 < e.rowCells columns := by
    have room := columns_le_rowCells narrow
    apply Nat.pos_of_ne_zero
    intro none_left
    rw [none_left, Nat.zero_mul] at room
    omega
  have aligned := Nat.le_of_dvd cells (align_of_lt (by cases e <;> decide) narrow).2
  cases e <;> simp only [alignment, cellBytes] at aligned ⊢ <;> omega

/-- A lane of a packed cell is a bit of its word. -/
theorem readLane_packed (c : UInt64) {lane : Nat} (inside : lane < 64) :
    readLane .packed c lane = (c.toBitVec.getLsbD lane).toNat := by
  have word : lane < UInt64.size := by simp only [UInt64.size]; omega
  simp only [readLane, UInt64.toNat_and, UInt64.toNat_shiftRight, UInt64.toNat_ofNat_of_lt' word,
    Nat.mod_eq_of_lt inside, UInt64.toNat_one, Nat.and_one_is_mod, BitVec.getLsbD,
    Nat.testBit_eq_decide_div_mod_eq, Nat.shiftRight_eq_div_pow, UInt64.toNat_toBitVec]
  rcases Nat.mod_two_eq_zero_or_one (c.toNat / 2 ^ lane) with bit | bit <;> simp [bit]

theorem readLane_writeLane_packed (c : UInt64) {lane i : Nat} (inside : lane < 64) (hi : i < 64)
    (value : Nat) : readLane .packed (writeLane .packed c lane value) i =
      if i = lane then value % 2 else readLane .packed c i := by
  rw [readLane_packed _ hi, readLane_packed _ hi]
  simp only [writeLane]
  have shift : (UInt64.ofNat lane).toBitVec.toNat % 64 = lane := by
    simp [Nat.mod_eq_of_lt inside]
  rcases Nat.mod_two_eq_zero_or_one value with bit | bit <;>
    rcases Nat.lt_trichotomy i lane with before | same | after
  · simp [bit, hi, Nat.mod_eq_of_lt inside, before, Nat.ne_of_lt before]
  · subst same
    simp [bit, hi, Nat.mod_eq_of_lt inside]
  · have apart : ¬ i - lane = 0 := by omega
    simp [bit, hi, Nat.mod_eq_of_lt inside, apart, Nat.ne_of_gt after]
  · simp [bit, hi, Nat.mod_eq_of_lt inside, before, Nat.ne_of_lt before]
  · subst same
    simp [bit, hi, Nat.mod_eq_of_lt inside]
  · have apart : ¬ i - lane = 0 := by omega
    simp [bit, hi, Nat.mod_eq_of_lt inside, apart, Nat.ne_of_gt after]

/-- Writing a residue into a lane changes no other lane of the cell. -/
theorem readLane_writeLane {e : Encoding} {p : SmallPrime} (supported : e.canStore p = true)
    (c : e.Cell) {lane i value : Nat} (inside : lane < e.lanes) (hi : i < e.lanes)
    (small : value < p.val) : e.readLane (e.writeLane c lane value) i =
      if i = lane then value else e.readLane c i := by
  have byte : value < 256 := Nat.lt_of_lt_of_le small (by have := p.le_251; omega)
  cases e with
  | generic =>
    simp only [lanes, Nat.lt_one_iff] at inside hi
    simp [readLane, writeLane, inside, hi, Nat.mod_eq_of_lt byte]
  | batched =>
    simp only [lanes, Nat.lt_one_iff] at inside hi
    simp [readLane, writeLane, inside, hi, Nat.mod_eq_of_lt byte]
  | packed =>
    have two : p.val = 2 := by simpa [canStore] using supported
    rw [readLane_writeLane_packed c inside hi, Nat.mod_eq_of_lt (by omega)]

/-- A cell is determined by its lanes. -/
theorem cell_ext {e : Encoding} {c d : e.Cell}
    (same : ∀ i, i < e.lanes → e.readLane c i = e.readLane d i) : c = d := by
  cases e with
  | generic => exact UInt8.toNat_inj.mp (same 0 (by decide))
  | batched => exact UInt8.toNat_inj.mp (same 0 (by decide))
  | packed =>
    apply UInt64.toBitVec_inj.mp
    apply BitVec.eq_of_getLsbD_eq
    intro i hi
    have bits := same i hi
    rw [readLane_packed _ hi, readLane_packed _ hi] at bits
    simpa using congrArg (· == 1) bits

end Encoding

namespace Row

variable {e : Encoding} {p : SmallPrime} {columns : Nat}

/-- A padded row as every operation leaves it. -/
structure Sound (e : Encoding) (p : SmallPrime) (columns : Nat) (r : Row e) : Prop where
  supported : e.canStore p = true
  narrow : e.rowCells columns < Storage.maxSize
  size : r.size = e.rowCells columns
  reduced : ∀ j, entry e r j < p.val
  padding : ∀ j, columns ≤ j → entry e r j = 0

theorem readLane_zeroCell (e : Encoding) (lane : Nat) : e.readLane e.zeroCell lane = 0 := by
  cases e <;> simp [Encoding.readLane, Encoding.zeroCell]

theorem entry_outside {r : Row e} {j : Nat} (outside : r.size ≤ j / e.lanes) : entry e r j = 0 := by
  rw [entry, Array.getD_eq_getD_getElem?, Array.getElem?_eq_none outside, Option.getD_none,
    readLane_zeroCell]

theorem entry_generic (r : Row .generic) (j : Nat) :
    entry .generic r j = UInt8.toNat (r.getD j (0 : UInt8)) := by
  simp [entry, Encoding.lanes, Encoding.readLane, Encoding.zeroCell]

theorem entry_batched (r : Row .batched) (j : Nat) :
    entry .batched r j = UInt8.toNat (r.getD j (0 : UInt8)) := by
  simp [entry, Encoding.lanes, Encoding.readLane, Encoding.zeroCell]

theorem eq_of_entries {r s : Row e} (size : r.size = s.size)
    (same : ∀ j, entry e r j = entry e s j) : r = s := by
  apply Array.ext size
  intro k hr hs
  apply Encoding.cell_ext
  intro i hi
  have lane := same (k * e.lanes + i)
  obtain ⟨cell, rest⟩ := position_split k hi
  simpa [entry, cell, rest, Array.getD, hr, hs] using lane

theorem entry_modify (supported : e.canStore p = true) (r : Row e) {j value : Nat}
    (inside : j / e.lanes < r.size) (small : value < p.val) (i : Nat) :
    entry e (r.modify (j / e.lanes) fun c => e.writeLane c (j % e.lanes) value) i =
      if i = j then value else entry e r i := by
  have positive := e.lanes_pos
  have hj := Nat.div_add_mod j e.lanes
  have hi := Nat.div_add_mod i e.lanes
  simp only [entry, Array.getD_eq_getD_getElem?, Array.getElem?_modify]
  by_cases cell : j / e.lanes = i / e.lanes
  · rw [if_pos cell, ← cell, Array.getElem?_eq_getElem inside, Option.map_some, Option.getD_some,
      Option.getD_some, Encoding.readLane_writeLane supported _ (Nat.mod_lt _ positive)
        (Nat.mod_lt _ positive) small]
    have lane : i % e.lanes = j % e.lanes ↔ i = j := by
      rw [cell] at hj
      constructor <;> intro h
      · omega
      · rw [h]
    simp only [lane]
  · have apart : i ≠ j := by
      rintro rfl
      exact cell rfl
    rw [if_neg cell, if_neg apart]

end Row

end RowReduction
