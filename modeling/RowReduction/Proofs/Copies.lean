import Mathlib
import RowReduction.Proofs.JsonTables
import RowReduction.Proofs.Reachable

/-!
The ways to copy a matrix. A conversion, the rows as lists and the table of a matrix all store the
same entries, a conversion leaves out those that are zero and a packed row is read a word at a time;
yet the copies are equal, since a buffer is determined by the entries in it.
-/
namespace RowReduction

namespace RowMatrix

section

variable [Storage.Memory] {e f : Encoding} {p : SmallPrime} {r n : Nat} {m : RowMatrix e}

/-- The lists of a matrix hold what asking for each entry answers. -/
theorem Shaped.map_entry_eq (h : m.Shaped p r n) :
    (List.range r).map (fun i => (List.range n).map (m.entry i)) =
      m.toLists.map (List.map Except.ok) := by
  rw [toLists, h.rows, List.map_map]
  apply List.map_congr_left
  intro i row
  have hi := List.mem_range.mp row
  rw [Function.comp_apply, h.rowEntries_eq_map hi, List.map_map]
  apply List.map_congr_left
  intro j column
  have hj := List.mem_range.mp column
  rw [h.entry_eq hi ⟨j, hj⟩, h.val_vec hi]
  rfl

/-- A matrix built from the lists of another one is a copy of it, or is refused as one. -/
theorem Shaped.ofLists_toLists (h : m.Shaped p r n) (supported : f.canStore p = true) :
    ofLists p m.toLists n = m.recode f := by
  have count : m.toLists.length = r := by rw [length_toLists, h.rows]
  have widths : ∀ row ∈ m.toLists, row.length = n := by
    rw [h.toLists_eq]
    simp
  rw [RowTable.ofLists_eq widths supported, h.recode_eq supported, count]
  apply tabulated_congr supported h.rows_le h.columns_le
  intro i j hi hj
  have row : m.toLists[i]? = some (m.rowEntries i) := by
    simp [toLists, h.rows, hi]
  have entry : (m.rowEntries i)[j]? = some (m.read i j) := by
    simp [h.rowEntries_eq_map hi, hj]
  simp [List.getD_eq_getElem?_getD, row, entry]

/-- `c` has the shape of `m` and answers like it, out of range too. -/
structure AnswersLike (c : RowMatrix f) (m : RowMatrix e) : Prop where
  prime : c.prime = m.prime
  rows : c.rows = m.rows
  columns : c.columns = m.columns
  entry : ∀ i j, c.entry i j = m.entry i j
  toLists : c.toLists = m.toLists

variable {c : RowMatrix f}

theorem Shaped.answersLike (h : m.Shaped p r n) (h' : c.Shaped p r n)
    (vectors : ∀ i, i < r → c.vec p n i = m.vec p n i) : c.AnswersLike m where
  prime := h'.prime.trans h.prime.symm
  rows := h'.rows.trans h.rows.symm
  columns := h'.columns.trans h.columns.symm
  entry i j := by
    by_cases inside : i < r
    · exact h.entry_congr h' inside inside (vectors i inside) j
    · simp [entry, requireColumn, requireRow, require, h.rows, h'.rows, h.columns, h'.columns,
        inside]
  toLists := by
    rw [h.toLists_eq, h'.toLists_eq]
    apply List.map_congr_left
    intro i row
    rw [vectors i (List.mem_range.mp row)]

/-- Copying a copy is copying the first matrix. -/
theorem Shaped.recode_copy (h : m.Shaped p r n) (h' : c.Shaped p r n)
    (vectors : ∀ i, i < r → c.vec p n i = m.vec p n i) {g : Encoding}
    (supported : g.canStore p = true) : c.recode g = m.recode g := by
  rw [h'.recode_eq supported, h.recode_eq supported]
  apply tabulated_congr supported h.rows_le h.columns_le
  intro i j hi hj
  rw [← h'.val_vec hi ⟨j, hj⟩, ← h.val_vec hi ⟨j, hj⟩, vectors i hi]

/-- Every way of copying a matrix to an encoding gives the same answer: its rows as lists, which
hold what each entry is, the table of them, as long as it can be listed in memory, and a conversion.
The copy answers like the matrix, converting it further is converting the matrix, and back in its own
encoding it is the matrix again. Only a buffer that cannot be allocated is refused, never one in the
encoding of the matrix. -/
theorem copies_agree {m : RowMatrix e} (reachable : Reachable ⟨e, m⟩) (f g : Encoding)
    (supported : f.canStore m.prime = true) (supported' : g.canStore m.prime = true) :
    (List.range m.rows).map (fun i => (List.range m.columns).map (m.entry i)) =
      m.toLists.map (List.map Except.ok) ∧
    ofLists m.prime m.toLists m.columns = m.recode f ∧
    (∀ t, RowTable.ofMatrix m = .ok t → t.toEncoded f = EncodedMatrix.recode f ⟨e, m⟩) ∧
    (m.rows * RowTable.rowBytes < Storage.allocationLimit → ∃ t, RowTable.ofMatrix m = .ok t) ∧
    m.copy = pure m ∧
    (Fits f m.rows m.columns → ∃ c, m.recode f = pure c ∧ c.AnswersLike m ∧
      c.recode g = m.recode g ∧ c.recode e = pure m) ∧
    (¬ Fits f m.rows m.columns → ∃ cells bytes, m.recode f = throw (.outOfMemory cells bytes)) := by
  have h : m.Shaped m.prime m.rows m.columns := reachable.wellFormed.shaped
  have lists : ofLists m.prime m.toLists m.columns = m.recode f := h.ofLists_toLists supported
  refine ⟨h.map_entry_eq, lists, ?table, fun listed => ⟨_, RowTable.ofMatrix_ok listed⟩, h.copy_eq,
    ?fits, ?refused⟩
  case table =>
    intro t shown
    obtain ⟨_, -, result⟩ := bind_eq_ok.mp shown
    cases result
    rw [RowTable.toEncoded, EncodedMatrix.ofLists, lists]
    rfl
  case fits =>
    intro fits
    obtain ⟨c, converted, shaped, vectors⟩ := h.recode_ok supported fits
    refine ⟨c, converted, h.answersLike shaped vectors,
      h.recode_copy shaped vectors supported', ?_⟩
    rw [h.recode_copy shaped vectors h.supported]
    exact h.copy_eq
  case refused =>
    intro large
    rw [h.recode_eq supported]
    exact tabulated_of_not_fits supported large m.read

end

/-- Rows that end in the middle of their second word. -/
theorem copies_agree_of_sample :
    let sample := tabulate .packed .two 3 70 fun i j => i * j + i
    Reachable ⟨.packed, sample⟩ ∧ Encoding.generic.canStore sample.prime = true ∧
      Encoding.batched.canStore sample.prime = true ∧
      ofLists sample.prime sample.toLists sample.columns = sample.recode .generic ∧
      ∃ c, sample.recode .generic = pure c ∧ c.AnswersLike sample ∧
        c.recode .batched = sample.recode .batched ∧ c.recode .packed = pure sample := by
  intro sample
  have shaped : sample.Shaped .two 3 70 :=
    tabulate_shaped (by decide) (by decide) (by decide) (by decide) _
  have reachable := shaped.wellFormed.reachable
  have small : Fits .generic sample.rows sample.columns := by
    rw [shaped.rows, shaped.columns]
    decide
  obtain ⟨-, lists, -, -, -, fits, -⟩ := copies_agree reachable .generic .batched rfl rfl
  exact ⟨reachable, rfl, rfl, lists, fits small⟩

end RowMatrix

end RowReduction
