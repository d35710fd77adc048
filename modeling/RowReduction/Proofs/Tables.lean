import Mathlib
import RowReduction.RowTable
import RowReduction.Proofs.Construction

/-!
Matrices as tables of numbers. Every way of reading a stored matrix shows the same table, whose rows
are lists of residues below the prime: single entries, whole rows, vectors that own their entries,
and the search for the first entry that is not zero.
-/
namespace RowReduction

variable {e : Encoding} {p : SmallPrime} {r n : Nat}

/-- The entries of a vector as numbers below the prime. -/
def residues (v : Fin n → Residue p) : List Nat := List.ofFn fun j => (v j).val

@[simp]
theorem length_residues (v : Fin n → Residue p) : (residues v).length = n := by
  simp [residues]

theorem getElem?_residues (v : Fin n → Residue p) {j : Nat} (hj : j < n) :
    (residues v)[j]? = some (v ⟨j, hj⟩).val := by
  simp [residues, hj]

theorem residues_zero : residues (0 : Fin n → Residue p) = List.replicate n 0 := by
  simp [residues, List.ofFn_const]

theorem residues_update (v : Fin n → Residue p) (j : Fin n) (x : Residue p) :
    residues (Function.update v j x) = (residues v).set j x.val := by
  apply List.ext_getElem
  · simp
  · intro k inside _
    simp only [residues, List.getElem_ofFn, List.getElem_set]
    by_cases same : j.val = k
    · have place : (⟨k, by simpa using inside⟩ : Fin n) = j := Fin.ext same.symm
      simp [place, same]
    · have place : (⟨k, by simpa using inside⟩ : Fin n) ≠ j := by
        intro place
        exact same (congrArg Fin.val place).symm
      simp [place, same]

/-- The plain arithmetic of rows is the arithmetic of vectors. -/
theorem addEntries_residues (v w : Fin n → Residue p) (c : Nat) :
    ResidueVector.addEntries p (residues v) (residues w) c =
      residues (v + (c : Residue p) • w) := by
  apply List.ext_getElem
  · simp [ResidueVector.addEntries]
  · intro k inside _
    simp only [ResidueVector.addEntries, residues, List.getElem_zipWith, List.getElem_ofFn,
      SmallPrime.sum, SmallPrime.product, Pi.add_apply, Pi.smul_apply, smul_eq_mul]
    rw [ZMod.val_add, ZMod.val_mul, ZMod.val_natCast, Nat.mod_mul_mod]

/-- The first nonzero entry of a list stands in the leading column of its vector. -/
theorem head?_nonzero_residues (v : Fin n → Residue p) :
    (ResidueVector.nonzero ⟨p, residues v⟩).head? =
      (EchelonForm.lead v).map fun c => (c.val, (v c).val) := by
  simp only [ResidueVector.nonzero, List.head?_map, List.head?_filter]
  cases leads : EchelonForm.lead v with
  | none =>
    have zero := EchelonForm.lead_eq_none.mp leads
    have nothing : (residues v).zipIdx.find? (fun pair => pair.1 != 0) = none := by
      rw [List.find?_eq_none]
      intro pair member
      have entry := (List.mem_zipIdx' member).2
      simp [entry, zero, residues]
    simp only [nothing, Option.map_none]
  | some c =>
    obtain ⟨nonzero, before⟩ := EchelonForm.lead_eq_some.mp leads
    have found : (residues v).zipIdx.find? (fun pair => pair.1 != 0) =
        some ((v c).val, c.val) := by
      rw [List.find?_eq_some_iff_getElem]
      refine ⟨by simpa using nonzero, c.val, by simp, by simp [residues], ?_⟩
      intro j hj
      have inside : j < n := Nat.lt_trans hj c.isLt
      have zero : v ⟨j, inside⟩ = 0 := before ⟨j, inside⟩ hj
      simp [residues, zero]
    simp only [found, Option.map_some]

theorem residues_injective : Function.Injective (residues : (Fin n → Residue p) → List Nat) := by
  intro v w same
  have values := List.ofFn_injective same
  funext j
  exact ZMod.val_injective p.val (congrFun values j)

theorem residues_any_ne_zero (v : Fin n → Residue p) :
    (residues v).any (· != 0) = decide (v ≠ 0) := by
  rw [Bool.eq_iff_iff, List.any_eq_true, decide_eq_true_iff, Function.ne_iff]
  simp [residues]

theorem filter_residues (list : List (Fin n → Residue p)) :
    (list.map residues).filter (fun row => row.any (· != 0)) =
      (list.filter (· ≠ 0)).map residues := by
  rw [List.filter_map]
  congr 2
  funext v
  exact residues_any_ne_zero v

theorem map_update {α β : Type} (f : α → β) (rows : Nat → α) (r t : Nat) (x : α) :
    (List.range r).map (fun i => f (Function.update rows t x i)) =
      ((List.range r).map fun i => f (rows i)).set t (f x) := by
  apply List.ext_getElem
  · simp
  · intro k _ _
    simp only [List.getElem_map, List.getElem_range, List.getElem_set]
    by_cases same : t = k
    · simp [same]
    · simp [same, Function.update_of_ne (Ne.symm same)]

namespace Row

theorem getElem?_flatMap {α β : Type} {f : α → List β} {w : Nat} (positive : 0 < w)
    (lengths : ∀ a, (f a).length = w) (list : List α) (j : Nat) :
    (list.flatMap f)[j]? = list[j / w]?.bind fun a => (f a)[j % w]? := by
  induction list generalizing j with
  | nil => simp
  | cons a rest ih =>
    rw [List.flatMap_cons, List.getElem?_append, lengths]
    by_cases first : j < w
    · simp [first, Nat.div_eq_of_lt first, Nat.mod_eq_of_lt first]
    · obtain ⟨k, rfl⟩ := Nat.exists_eq_add_of_le (Nat.le_of_not_lt first)
      simp [ih, Nat.add_div_left k positive]

/-- Reading a row as a whole gives its entries one after the other, in every encoding. -/
theorem entries_eq {row : Row e} (sound : Sound e p n row) :
    entries e row n = (List.range n).map (entry e row) := by
  cases e with
  | generic => rfl
  | batched => rfl
  | packed =>
    have room := Encoding.columns_le_rowCells sound.narrow
    apply List.ext_getElem?
    intro j
    simp only [entries, Bits.entries, List.getElem?_take, List.getElem?_map,
      getElem?_flatMap (by decide : 0 < 64) length_bitsOf]
    by_cases inside : j < n
    · have stored : j / 64 < Array.size row := by
        rw [sound.size]
        exact (Nat.div_lt_iff_lt_mul (by decide)).mpr (Nat.lt_of_lt_of_le inside room)
      have lane : j % 64 < (Bits.bitsOf row[j / 64]).length := by
        rw [length_bitsOf]
        exact Nat.mod_lt j (by decide)
      have word : row.toList[j / 64]? = some row[j / 64] := by simp [stored]
      simp only [inside, if_true, word, Option.bind_some, List.getElem?_eq_getElem lane,
        getElem_bitsOf, List.getElem?_range inside, Option.map_some, entry_packed, Array.getD,
        stored, dite_true]
      rfl
    · simp [inside]

end Row

namespace RowMatrix

variable [Storage.Memory] {m : RowMatrix e}

/-- The table that a matrix shows. -/
def table (m : RowMatrix e) : RowTable := ⟨m.prime, m.columns, m.toLists⟩

theorem Shaped.rowEntries_eq_map (h : m.Shaped p r n) {i : Nat} (hi : i < r) :
    m.rowEntries i = (List.range n).map (m.read i) := by
  rw [rowEntries, h.columns, Row.entries_eq (h.sound hi)]
  apply List.map_congr_left
  intro j hj
  exact (h.read_eq hi (List.mem_range.mp hj)).symm

theorem Shaped.rowEntries_eq (h : m.Shaped p r n) {i : Nat} (hi : i < r) :
    m.rowEntries i = residues (m.vec p n i) := by
  rw [h.rowEntries_eq_map hi]
  apply List.ext_getElem
  · simp
  · intro j inside _
    have column : j < n := by simpa using inside
    simp [residues, h.val_vec hi ⟨j, column⟩]

theorem Shaped.toLists_eq (h : m.Shaped p r n) :
    m.toLists = (List.range r).map fun i => residues (m.vec p n i) := by
  rw [toLists, h.rows]
  apply List.map_congr_left
  intro i hi
  exact h.rowEntries_eq (List.mem_range.mp hi)

theorem Shaped.toLists_eq_map (h : m.Shaped p r n) :
    m.toLists = ((List.range r).map (m.vec p n)).map residues := by
  rw [h.toLists_eq, List.map_map]
  rfl

theorem Shaped.vec_of_toLists (h : m.Shaped p r n) {i : Nat} {v : Fin n → Residue p}
    (place : m.toLists[i]? = some (residues v)) : m.vec p n i = v := by
  rw [h.toLists_eq, List.getElem?_map, Option.map_eq_some_iff] at place
  obtain ⟨k, listed, same⟩ := place
  obtain ⟨inside, rfl⟩ := List.getElem?_eq_some_iff.mp listed
  rw [List.getElem_range] at same
  exact residues_injective same

omit [Storage.Memory] in
theorem length_toLists (m : RowMatrix e) : m.toLists.length = m.rows := by simp [toLists]

theorem Shaped.table_eq (h : m.Shaped p r n) :
    m.table = ⟨p, n, (List.range r).map fun i => residues (m.vec p n i)⟩ := by
  rw [table, h.prime, h.columns, h.toLists_eq]

theorem table_tabulate (supported : e.canStore p = true) (rows_le : r ≤ Storage.maxSize)
    (columns_le : n ≤ Storage.maxSize) (fits : Fits e r n) (entries : Nat → Nat → Nat) :
    (tabulate e p r n entries).table =
      ⟨p, n, (List.range r).map fun i => (List.range n).map fun j => entries i j % p.val⟩ := by
  have shaped := tabulate_shaped supported rows_le columns_le fits entries
  rw [shaped.table_eq]
  congr 1
  apply List.map_congr_left
  intro i row
  have hi : i < r := List.mem_range.mp row
  apply List.ext_getElem
  · simp
  · intro j inside _
    have column : j < n := by simpa using inside
    simp only [residues, List.getElem_ofFn, List.getElem_map, List.getElem_range]
    rw [shaped.val_vec hi ⟨j, column⟩,
      read_tabulate supported rows_le columns_le fits entries hi column]

/-- All that can be read of a matrix is what a table says: its entries, its rows as lists and as
vectors, and the first nonzero entry of each. -/
structure Shows (m : RowMatrix e) (t : RowTable) : Prop where
  prime : m.prime = t.prime
  rows : m.rows = t.rows.length
  columns : m.columns = t.columns
  toLists : m.toLists = t.rows
  entry : ∀ i row, t.rows[i]? = some row → ∀ j x, row[j]? = some x → m.entry i j = .ok x
  vector : ∀ i row, t.rows[i]? = some row →
    ∃ view, m.view i = .ok view ∧ view.toVector = ⟨t.prime, row⟩
  leading : ∀ i row, t.rows[i]? = some row →
    m.leading i = .ok (ResidueVector.nonzero ⟨t.prime, row⟩).head?

theorem Shaped.view_ok (h : m.Shaped p r n) {i : Nat} (hi : i < r) :
    ∃ view, m.view i = .ok view ∧ view.toVector = ⟨p, residues (m.vec p n i)⟩ := by
  obtain ⟨wf, rfl, rfl, rfl⟩ := h
  refine ⟨⟨m, i, hi⟩, dif_pos hi, ?_⟩
  simp only [NumberedRow.toVector, ResidueVector.ofList, NumberedRow.prime, NumberedRow.entries,
    NumberedRow.length, List.map_map]
  congr 1
  apply List.ext_getElem
  · simp
  · intro j inside _
    have column : j < m.columns := by simpa using inside
    simp only [List.getElem_map, List.getElem_range, residues, List.getElem_ofFn,
      Function.comp_apply, SmallPrime.reduce]
    rw [wf.shaped.val_vec hi ⟨j, column⟩, Nat.mod_eq_of_lt (wf.read_lt hi column)]

theorem WellFormed.shows (wf : m.WellFormed) : m.Shows m.table := by
  have h := wf.shaped
  have table := h.table_eq
  have place (i : Nat) (row : List Nat) (found : m.table.rows[i]? = some row) :
      i < m.rows ∧ row = residues (m.vec m.prime m.columns i) := by
    rw [table, List.getElem?_map, Option.map_eq_some_iff] at found
    obtain ⟨k, listed, rfl⟩ := found
    obtain ⟨inside, rfl⟩ := List.getElem?_eq_some_iff.mp listed
    simp only [List.length_range] at inside
    simp only [List.getElem_range]
    exact ⟨inside, trivial⟩
  refine ⟨rfl, ?_, rfl, rfl, ?_, ?_, ?_⟩
  · simp [RowMatrix.table, toLists]
  · intro i row found j x stored
    obtain ⟨inside, rfl⟩ := place i row found
    obtain ⟨column, entry⟩ := List.getElem?_eq_some_iff.mp stored
    rw [length_residues] at column
    rw [h.entry_eq inside ⟨j, column⟩, ← entry]
    simp [residues]
  · intro i row found
    obtain ⟨inside, rfl⟩ := place i row found
    exact h.view_ok inside
  · intro i row found
    obtain ⟨inside, rfl⟩ := place i row found
    exact (h.leading_eq inside).trans (congrArg Except.ok (head?_nonzero_residues _).symm)

end RowMatrix

end RowReduction
