import Mathlib
import RowReduction.Tool
import RowReduction.Proofs.Agreement
import RowReduction.Proofs.Tables

/-!
Tables between their text and the matrices that hold them. A number of columns that was read is a
64-bit size. A table whose rows are all as wide as it says can be stored in every encoding that
supports its prime, as the same matrix, and the text of a matrix does not show its encoding.
-/
namespace RowReduction

namespace Json

variable {α β σ : Type} {P : α → Prop} {Q : β → Prop}

/-- Everything that a reader answers with satisfies `P`. -/
def Ensures (value : Reader α) (P : α → Prop) : Prop :=
  ∀ length text a rest, value length text = .ok (a, rest) → P a

theorem ensures_pure {a : α} (holds : P a) : Ensures (pure a) P := by
  intro length text b rest read
  cases read
  exact holds

theorem ensures_malformed : Ensures malformed P := by
  intro length text a rest read
  cases read

theorem Ensures.bind {value : Reader α} {next : α → Reader β} (first : Ensures value P)
    (later : ∀ a, P a → Ensures (next a) Q) : Ensures (value >>= next) Q := by
  intro length text b rest read
  cases taken : value length text with
  | error failure =>
    have stopped : (value >>= next) length text = .error failure := by
      change (value length text >>= fun x => next x.1 length x.2) = _
      rw [taken]
      rfl
    cases stopped.symm.trans read
  | ok pair =>
    have step : (value >>= next) length text = next pair.1 length pair.2 := by
      change (value length text >>= fun x => next x.1 length x.2) = _
      rw [taken]
      rfl
    exact later pair.1 (first length text pair.1 pair.2 taken) length pair.2 b rest
      (step.symm.trans read)

/-- What is read before does not matter, if what follows gives the same whatever it was. -/
theorem ensures_bind (value : Reader α) {next : α → Reader β} (later : ∀ a, Ensures (next a) Q) :
    Ensures (value >>= next) Q :=
  Ensures.bind (P := fun _ => True) (fun _ _ _ _ _ => trivial) fun a _ => later a

theorem ensures_check {c : Prop} [Decidable c] {test : Reader Unit} {next : Unit → Reader β}
    (later : Ensures (next ()) Q) : Ensures (if c then test >>= next else next ()) Q := by
  split
  · exact ensures_bind test fun _ => later
  · exact later

theorem Ensures.readText {value : Reader α} (ensures : Ensures value P) {text : List UInt8} {a : α}
    (read : readText value text = .ok a) : P a := by
  cases taken : value text.length text with
  | error failure =>
    have stopped : Json.readText value text = .error failure := by
      change (value text.length text >>= _) = _
      rw [taken]
      rfl
    cases stopped.symm.trans read
  | ok pair =>
    have checked : (if pair.2.all isBlank then pure pair.1 else throw .malformed) =
        (Except.ok a : Except JsonError α) := by
      rw [← read]
      change _ = (value text.length text >>= _)
      rw [taken]
      rfl
    split at checked
    · cases checked
      exact ensures text.length text pair.1 pair.2 taken
    · cases checked

theorem ensures_unsigned (limit : Nat) : Ensures (unsigned limit) (· ≤ limit) := by
  refine ensures_bind _ fun _ => ensures_bind _ fun digits => ensures_bind _ fun fraction => ?_
  refine ensures_check ?_
  dsimp only
  split
  · exact (ensures_malformed (P := fun _ => False)).bind fun _ never => never.elim
  · rename_i small
    exact ensures_pure (Nat.le_of_not_lt small)

theorem ensures_required (o : Option α) : Ensures (required o) (· ∈ o) := by
  cases o with
  | none => exact ensures_malformed
  | some a => exact ensures_pure rfl

theorem ensures_optional {value : Reader α} (ensures : Ensures value P) :
    Ensures (optional value) fun o => ∀ a ∈ o, P a := by
  refine ensures_bind _ fun _ => ensures_bind _ fun _ => ?_
  split
  · exact ensures_bind _ fun _ => ensures_pure (by simp)
  · exact ensures.bind fun a holds => ensures_pure (by simpa using holds)

section Records

variable {P : σ → Prop} {fields : List (Field σ)} {s : σ}

theorem ensures_members (keeps : ∀ field ∈ fields, ∀ s, P s → Ensures (field.read s) P)
    (rounds : Nat) (first : Bool) (holds : P s) : Ensures (members fields rounds first s) P := by
  induction rounds generalizing first s with
  | zero => exact ensures_malformed
  | succ rounds ih =>
    refine ensures_bind _ fun _ => ensures_bind _ fun closed => ?_
    split
    · exact ensures_pure holds
    · refine ensures_check (ensures_bind _ fun name => ?_)
      split
      · exact ensures_bind _ fun _ => ensures_bind _ fun _ => ensures_bind _ fun _ => ih false holds
      · rename_i field found
        refine ensures_check (ensures_bind _ fun _ => ensures_bind _ fun _ => ?_)
        exact (keeps field (List.mem_of_find?_eq_some found) s holds).bind
          fun _ holds => ih false holds

theorem ensures_positional (mayEnd : Bool) (fields : List (Field σ)) (first : Bool)
    (keeps : ∀ field ∈ fields, ∀ s, P s → Ensures (field.read s) P) (holds : P s) :
    Ensures (positional mayEnd first fields s) P := by
  induction fields generalizing first s with
  | nil => exact ensures_bind _ fun _ => ensures_bind _ fun _ => ensures_pure holds
  | cons field rest ih =>
    refine ensures_bind _ fun _ => ensures_bind _ fun closed => ?_
    split
    · split
      · exact ensures_pure holds
      · exact ensures_malformed
    · refine ensures_check ?_
      exact (keeps field List.mem_cons_self s holds).bind fun _ holds =>
        ih false (fun other member => keeps other (List.mem_cons_of_mem field member)) holds

/-- What every field keeps, a record keeps, in both of its forms. -/
theorem ensures_record (mayEnd : Bool)
    (keeps : ∀ field ∈ fields, ∀ s, P s → Ensures (field.read s) P) (holds : P s) :
    Ensures (record mayEnd fields s) P := by
  refine ensures_bind _ fun _ => ensures_bind _ fun b => ?_
  split
  · exact ensures_bind _ fun rounds => ensures_members keeps rounds true holds
  · split
    · exact ensures_positional mayEnd fields true keeps holds
    · exact ensures_malformed

end Records

end Json

open Json

namespace RowTable

variable {e f : Encoding} {t : RowTable}

theorem ensures_reader : Ensures RowTable.reader fun t => t.columns ≤ Storage.maxSize := by
  have keeps : ∀ field ∈ fields, ∀ s, (∀ n ∈ s.columns, n ≤ Storage.maxSize) →
      Ensures (field.read s) fun s => ∀ n ∈ s.columns, n ≤ Storage.maxSize := by
    intro field member s sized
    simp only [fields, List.mem_cons, List.not_mem_nil, or_false] at member
    obtain rfl | rfl | rfl := member
    · exact ensures_bind _ fun _ => ensures_pure sized
    · exact (ensures_unsigned Storage.maxSize).bind fun n small =>
        ensures_pure (by simpa using small)
    · exact ensures_bind _ fun _ => ensures_pure sized
  refine (ensures_record false keeps (by simp)).bind fun s sized => ensures_bind _ fun p => ?_
  refine (ensures_required s.columns).bind fun n member => ensures_bind _ fun rows => ?_
  exact ensures_pure (sized n member)

variable [Storage.Memory]

/-- Every row has an entry for each column, and the table can be listed in memory. -/
structure Regular (t : RowTable) : Prop where
  widths : ∀ row ∈ t.rows, row.length = t.columns
  columns_le : t.columns ≤ Storage.maxSize
  listed : t.rows.length * rowBytes < Storage.allocationLimit

theorem Regular.rows_le (regular : t.Regular) : t.rows.length ≤ Storage.maxSize := by
  have listed := regular.listed
  have limit := Storage.allocationLimit_le_maxSize
  unfold rowBytes at listed
  omega

/-- The matrix with the entries of a table, reduced modulo its prime. -/
def matrix (t : RowTable) (e : Encoding) : RowMatrix e :=
  .tabulate e t.prime t.rows.length t.columns fun i j => (t.rows.getD i []).getD j 0

theorem Regular.matrix_shaped (regular : t.Regular) (supported : e.canStore t.prime = true)
    (fits : Fits e t.rows.length t.columns) :
    (t.matrix e).Shaped t.prime t.rows.length t.columns :=
  RowMatrix.tabulate_shaped supported regular.rows_le regular.columns_le fits _

theorem ofMatrix_ok {m : RowMatrix e} (listed : m.rows * rowBytes < Storage.allocationLimit) :
    ofMatrix m = .ok m.table := by
  have small : require (m.rows * rowBytes < Storage.allocationLimit) .capacityExceeded = .ok () :=
    require_eq_ok.mpr (decide_eq_true listed)
  rw [ofMatrix, small]
  rfl

omit [Storage.Memory] in
theorem checkWidths_of_regular {rows : List (List Nat)} {n : Nat}
    (widths : ∀ row ∈ rows, row.length = n) :
    rows.forM (fun row => checkWidths n row.length) = .ok () := by
  induction rows with
  | nil => rfl
  | cons row rest ih =>
    have first : checkWidths n row.length = .ok () :=
      checkWidths_eq_ok.mpr (widths row List.mem_cons_self).symm
    change (checkWidths n row.length >>= fun _ => rest.forM _) = _
    rw [first]
    exact ih fun other member => widths other (List.mem_cons_of_mem row member)

/-- Rows that are all as wide as they should be are stored as a table of their entries. -/
theorem ofLists_eq {p : SmallPrime} {rows : List (List Nat)} {n : Nat}
    (widths : ∀ row ∈ rows, row.length = n) (supported : e.canStore p = true) :
    RowMatrix.ofLists p rows n =
      RowMatrix.tabulated e p rows.length n fun i j => (rows.getD i []).getD j 0 := by
  have entries : (fun i j => ((rows.map List.toArray).toArray.getD i #[]).getD j 0) =
      fun i j => (rows.getD i []).getD j 0 := by
    funext i j
    cases place : rows[i]? <;> simp [Array.getD_eq_getD_getElem?, place]
  by_cases fits : Fits e rows.length n
  · rw [RowMatrix.ofLists, RowMatrix.new_of_fits supported fits, pure_bind,
      checkWidths_of_regular widths, RowMatrix.tabulated_of_fits supported fits]
    dsimp only
    rw [entries]
    rfl
  · obtain ⟨cells, bytes, refused⟩ := RowMatrix.checkNew_of_not_fits supported fits
    simp only [RowMatrix.ofLists, RowMatrix.new, RowMatrix.tabulated, refused]
    rfl

theorem Regular.toEncoded_ok (regular : t.Regular) (supported : e.canStore t.prime = true)
    (fits : Fits e t.rows.length t.columns) : t.toEncoded e = pure ⟨e, t.matrix e⟩ := by
  rw [toEncoded, EncodedMatrix.ofLists, ofLists_eq regular.widths supported,
    RowMatrix.tabulated_of_fits supported fits]
  rfl

/-- A table is stored as the same matrix in all encodings. -/
theorem Regular.matrix_same (regular : t.Regular) (supported : e.canStore t.prime = true)
    (supported' : f.canStore t.prime = true) (fits : Fits e t.rows.length t.columns)
    (fits' : Fits f t.rows.length t.columns) : (t.matrix e).Same (t.matrix f) := by
  refine (regular.matrix_shaped supported fits).same (regular.matrix_shaped supported' fits') ?_
  intro i hi
  rw [matrix, matrix, RowMatrix.vec_tabulate supported regular.rows_le regular.columns_le fits _ hi,
    RowMatrix.vec_tabulate supported' regular.rows_le regular.columns_le fits' _ hi]

theorem Regular.inEncoding_matrix (regular : t.Regular) (supported : e.canStore t.prime = true)
    (supported' : f.canStore t.prime = true) (fits : Fits e t.rows.length t.columns)
    (fits' : Fits f t.rows.length t.columns) :
    (⟨e, t.matrix e⟩ : EncodedMatrix).inEncoding f = pure (t.matrix f) := by
  unfold EncodedMatrix.inEncoding
  split
  · rename_i same
    dsimp only at same
    subst same
    rfl
  · exact RowMatrix.recode_tabulate supported supported' regular.rows_le regular.columns_le fits
      fits' _

end RowTable

namespace RowMatrix

variable {e f : Encoding} {m : RowMatrix e} {m' : RowMatrix f}

theorem Same.table_eq [Storage.Memory] (same : m.Same m') : m'.table = m.table := by
  have shaped := same.wellFormed.shaped
  have shaped' := same.shaped shaped
  rw [shaped.table_eq, shaped'.table_eq, same.vec_eq shaped]

end RowMatrix

namespace Tool

theorem PreimageInput.ensures_reader : Ensures PreimageInput.reader fun input =>
    input.rows.columns ≤ Storage.maxSize ∧
      ∀ t ∈ input.matrix, t.columns ≤ Storage.maxSize := by
  have keeps : ∀ field ∈ fields, ∀ s,
      ((∀ t ∈ s.rows, t.columns ≤ Storage.maxSize) ∧
        ∀ o ∈ s.matrix, ∀ t ∈ o, t.columns ≤ Storage.maxSize) →
      Ensures (field.read s) fun s => (∀ t ∈ s.rows, t.columns ≤ Storage.maxSize) ∧
        ∀ o ∈ s.matrix, ∀ t ∈ o, t.columns ≤ Storage.maxSize := by
    rintro field member s ⟨rows, matrix⟩
    simp only [fields, List.mem_cons, List.not_mem_nil, or_false] at member
    obtain rfl | rfl := member
    · exact (ensures_optional RowTable.ensures_reader).bind fun o sized =>
        ensures_pure ⟨rows, by simpa using sized⟩
    · exact RowTable.ensures_reader.bind fun t sized => ensures_pure ⟨by simpa using sized, matrix⟩
  refine (ensures_record false keeps (by simp)).bind fun s sized => ?_
  refine (ensures_required s.rows).bind fun t member => ensures_pure ⟨sized.1 t member, ?_⟩
  intro other present
  cases given : s.matrix with
  | none => simp [given] at present
  | some o =>
    rw [given] at present
    exact sized.2 o given other present

theorem matrixJson_ok [Storage.Memory] {m : EncodedMatrix}
    (listed : m.rows * RowTable.rowBytes < Storage.allocationLimit) :
    matrixJson m = .ok m.matrix.table.toJson := by
  rw [matrixJson, RowTable.ofEncoded, RowTable.ofMatrix_ok listed]
  rfl

end Tool

end RowReduction
