import Mathlib
import RowReduction.Proofs.Decoding
import RowReduction.Proofs.Reachable

/-!
The byte format of a matrix. An input starts with a matrix if its header is complete, enough bytes
follow, and these are residues; what else is there does not matter. Such an input is read unless the
matrix would not fit in memory. The encoding only decides about that: the entries are the bytes
behind the header in row-major order, and a matrix is written as the bytes it was read from.
-/
namespace RowReduction

namespace Binary

variable {p : SmallPrime} {input body : List UInt8} {r n : Nat}

def headerBytes : Nat := 2 * wordBytes

def announcedRows (input : List UInt8) : Nat := ofLittleEndian (input.take wordBytes)

def announcedColumns (input : List UInt8) : Nat :=
  ofLittleEndian ((input.drop wordBytes).take wordBytes)

def announcedSize (input : List UInt8) : Nat := announcedRows input * announcedColumns input

/-- The bytes behind the header that stand for entries. -/
def entryBytes (input : List UInt8) : List UInt8 :=
  (input.drop headerBytes).take (announcedSize input)

/-- The input starts with the bytes of a matrix over `p`. -/
structure HoldsMatrix (p : SmallPrime) (input : List UInt8) : Prop where
  header : headerBytes ≤ input.length
  entries : announcedSize input ≤ (input.drop headerBytes).length
  reduced : ∀ x ∈ entryBytes input, x.toNat < p.val

theorem announcedRows_le : announcedRows input ≤ Storage.maxSize := ofLittleEndian_take_le input

theorem announcedColumns_le : announcedColumns input ≤ Storage.maxSize :=
  ofLittleEndian_take_le (input.drop wordBytes)

theorem word_of_length (enough : wordBytes ≤ input.length) :
    word (ofLittleEndian (input.take wordBytes)) = input.take wordBytes := by
  have bytes := littleEndian_ofLittleEndian (input.take wordBytes)
  rwa [List.length_take_of_le enough] at bytes

/-- A complete header consists of the two words that it announces. -/
theorem eq_of_header (header : headerBytes ≤ input.length) :
    input = word (announcedRows input) ++
      (word (announcedColumns input) ++ input.drop headerBytes) := by
  have total : headerBytes = wordBytes + wordBytes := by decide
  have first : wordBytes ≤ input.length := by omega
  have second : wordBytes ≤ (input.drop wordBytes).length := by
    simp only [List.length_drop]
    omega
  rw [announcedRows, announcedColumns, word_of_length first, word_of_length second, total,
    ← List.drop_drop, List.take_append_drop, List.take_append_drop]

theorem announcedRows_words (size : r ≤ Storage.maxSize) :
    announcedRows (word r ++ (word n ++ body)) = r := by
  rw [announcedRows, List.take_left' (length_word r), ofLittleEndian_word size]

theorem announcedColumns_words (size : n ≤ Storage.maxSize) :
    announcedColumns (word r ++ (word n ++ body)) = n := by
  rw [announcedColumns, List.drop_left' (length_word r), List.take_left' (length_word n),
    ofLittleEndian_word size]

theorem length_words : (word r ++ word n).length = headerBytes := by
  simp [headerBytes]
  omega

theorem drop_words : (word r ++ (word n ++ body)).drop headerBytes = body := by
  rw [← List.append_assoc, List.drop_left' length_words]

end Binary

namespace RowMatrix

open Binary

section

variable [Storage.Memory] {e f : Encoding} {p : SmallPrime} {m : RowMatrix e} {r n : Nat}
  {input rest tail : List UInt8}

/-- What is read from `input` over `p`: a matrix of the announced size with the bytes behind the
header as entries, which is written as the bytes that were taken. -/
structure TakenFrom (p : SmallPrime) (input : List UInt8) (m : RowMatrix e) (rest : List UInt8) :
    Prop where
  wellFormed : m.WellFormed
  prime : m.prime = p
  rows : m.rows = announcedRows input
  columns : m.columns = announcedColumns input
  consumed : input.length = headerBytes + m.rows * m.columns + rest.length
  rest : rest = input.drop (headerBytes + m.rows * m.columns)
  written : m.encode = input.take (headerBytes + m.rows * m.columns)
  entries : ∀ i j, i < m.rows → j < m.columns →
    input[headerBytes + (i * m.columns + j)]?.map UInt8.toNat = some (m.read i j)

/-- Reading accepts exactly what is written of a matrix over `p`. -/
theorem decode_eq_pure_iff : (decode p : Decoder (RowMatrix e)) input = pure (m, rest) ↔
    m.WellFormed ∧ m.prime = p ∧ input = m.encode ++ rest := by
  constructor
  · intro read
    have shaped := Shaped.of_decode read
    exact ⟨shaped.wellFormed, shaped.prime, bytes_of_decode read⟩
  · rintro ⟨wf, rfl, rfl⟩
    exact wf.shaped.reads_decode rest

theorem Shaped.length_encode (h : m.Shaped p r n) : m.encode.length = headerBytes + r * n := by
  rw [h.encode_eq, ← List.append_assoc, List.length_append, length_words]
  simp

theorem Shaped.encode_append (h : m.Shaped p r n) : m.encode ++ tail =
    word r ++ (word n ++ ((m.flat r n).map UInt8.ofNat ++ tail)) := by
  rw [h.encode_eq]
  simp only [List.append_assoc]

theorem Shaped.takenFrom (h : m.Shaped p r n) : TakenFrom p (m.encode ++ tail) m tail := by
  obtain ⟨wf, rfl, rfl, rfl⟩ := h
  have length := wf.shaped.length_encode
  constructor
  case wellFormed => exact wf
  case prime => rfl
  case rows => rw [wf.shaped.encode_append, announcedRows_words wf.rows_le]
  case columns => rw [wf.shaped.encode_append, announcedColumns_words wf.columns_le]
  case consumed => rw [List.length_append, length]
  case rest => rw [List.drop_left' length]
  case written => rw [List.take_left' length]
  case entries =>
    intro i j hi hj
    have inside := position_inside hi hj
    have value := toNat_ofNat_of_le (Nat.le_of_lt (wf.read_lt hi hj))
    -- Behind the header entries are counted from the first one.
    rw [← List.getElem?_drop, wf.shaped.encode_append, drop_words, List.getElem?_append_left]
    · simp [getElem?_flat hi hj, value]
    · simpa using inside

theorem takenFrom_of_decode (read : decode p input = pure (m, rest)) :
    TakenFrom p input m rest := by
  obtain ⟨wf, rfl, rfl⟩ := decode_eq_pure_iff.mp read
  exact wf.shaped.takenFrom

/-- The bytes alone determine the matrix: read in two encodings, it is the same. -/
theorem TakenFrom.same {m' : RowMatrix f} {rest' : List UInt8} (taken : TakenFrom p input m rest)
    (taken' : TakenFrom p input m' rest') : m.Same m' ∧ rest' = rest := by
  have rows : m'.rows = m.rows := taken'.rows.trans taken.rows.symm
  have columns : m'.columns = m.columns := taken'.columns.trans taken.columns.symm
  have h : m.Shaped p m.rows m.columns := ⟨taken.wellFormed, taken.prime, rfl, rfl⟩
  have h' : m'.Shaped p m.rows m.columns := ⟨taken'.wellFormed, taken'.prime, rows, columns⟩
  constructor
  · apply h.same h'
    intro i hi
    funext j
    have byte := taken.entries i j hi j.isLt
    have byte' := taken'.entries i j (hi.trans_eq rows.symm) (j.isLt.trans_eq columns.symm)
    rw [columns, byte] at byte'
    exact congrArg (Nat.cast (R := Residue p)) (Option.some.inj byte').symm
  · rw [taken.rest, taken'.rest, rows, columns]

theorem Shaped.holdsMatrix (h : m.Shaped p r n) : HoldsMatrix p (m.encode ++ tail) := by
  have size : announcedSize (m.encode ++ tail) = r * n := by
    rw [h.encode_append, announcedSize, announcedRows_words h.rows_le,
      announcedColumns_words h.columns_le]
  have body : (m.encode ++ tail).drop headerBytes = (m.flat r n).map UInt8.ofNat ++ tail := by
    rw [h.encode_append, drop_words]
  have length : ((m.flat r n).map UInt8.ofNat).length = r * n := by simp
  constructor
  case header =>
    rw [List.length_append, h.length_encode]
    omega
  case entries =>
    rw [size, body, List.length_append, length]
    omega
  case reduced =>
    intro x member
    rw [entryBytes, size, body, List.take_left' length] at member
    obtain ⟨y, among, rfl⟩ := List.mem_map.mp member
    have small := h.flat_lt y among
    rwa [toNat_ofNat_of_le (Nat.le_of_lt small)]

/-- An input that starts with a matrix consists of what that matrix is written as and a rest. -/
theorem exists_of_holdsMatrix (supported : e.canStore p = true) (holds : HoldsMatrix p input)
    (fits : Fits e (announcedRows input) (announcedColumns input)) :
    ∃ (m : RowMatrix e) (rest : List UInt8),
      m.Shaped p (announcedRows input) (announcedColumns input) ∧ input = m.encode ++ rest := by
  -- The matrix is filled from the bytes, so that its entries are these in the same order.
  let residues := (entryBytes input).map UInt8.toNat
  have shaped := tabulate_shaped supported announcedRows_le announcedColumns_le fits
    fun i j => residues.toArray.getD (i * announcedColumns input + j) 0
  have length : residues.length = announcedRows input * announcedColumns input := by
    simp only [residues, entryBytes, List.length_map]
    exact List.length_take_of_le holds.entries
  have reduced : ∀ x ∈ residues, x < p.val := List.forall_mem_map.mpr holds.reduced
  have flat := flat_of_read length reduced fun i j hi hj =>
    read_tabulate supported announcedRows_le announcedColumns_le fits _ hi hj
  have bytes : residues.map UInt8.ofNat = entryBytes input := by
    simp [residues, Function.comp_def]
  refine ⟨_, (input.drop headerBytes).drop (announcedSize input), shaped, ?_⟩
  rw [shaped.encode_append, flat, bytes, entryBytes, List.take_append_drop]
  exact eq_of_header holds.header

theorem decodes_iff (supported : e.canStore p = true) :
    (∃ (m : RowMatrix e) (rest : List UInt8), decode p input = pure (m, rest)) ↔
      HoldsMatrix p input ∧ Fits e (announcedRows input) (announcedColumns input) := by
  constructor
  · rintro ⟨m, rest, read⟩
    have taken := takenFrom_of_decode read
    obtain ⟨wf, rfl, rfl⟩ := decode_eq_pure_iff.mp read
    refine ⟨wf.shaped.holdsMatrix, ?_⟩
    rw [← taken.rows, ← taken.columns]
    exact wf.shaped.fits
  · rintro ⟨holds, fits⟩
    obtain ⟨m, rest, shaped, bytes⟩ := exists_of_holdsMatrix supported holds fits
    exact ⟨m, rest, decode_eq_pure_iff.mpr ⟨shaped.wellFormed, shaped.prime, bytes⟩⟩

/-- Over a prime and an encoding that supports it, exactly the inputs that start with a matrix are
read, if it fits in memory. What is read is determined by the bytes, in all encodings alike, and
every reachable matrix is read back from what it is written as, whatever follows. -/
theorem matrix_format_exact (supported : e.canStore p = true) :
    (∀ input, (∃ (m : RowMatrix e) (rest : List UInt8), decode p input = pure (m, rest)) ↔
      HoldsMatrix p input ∧ Fits e (announcedRows input) (announcedColumns input)) ∧
    (∀ input (m : RowMatrix e) rest, decode p input = pure (m, rest) →
      TakenFrom p input m rest) ∧
    (∀ (f : Encoding) input (m : RowMatrix e) (m' : RowMatrix f) rest rest',
      decode p input = pure (m, rest) → decode p input = pure (m', rest') →
        m.Same m' ∧ rest' = rest) ∧
    ∀ m : RowMatrix e, Reachable ⟨e, m⟩ → m.prime = p →
      ∀ tail, decode p (m.encode ++ tail) = pure (m, tail) := by
  refine ⟨fun input => decodes_iff supported, ?_, ?_, ?_⟩
  · intro input m rest read
    exact takenFrom_of_decode read
  · intro f input m m' rest rest' read read'
    exact (takenFrom_of_decode read).same (takenFrom_of_decode read')
  · intro m reachable prime tail
    exact decode_eq_pure_iff.mpr ⟨reachable.wellFormed, prime, rfl⟩

end

/-- Six bits behind a header, and one byte more that is no residue. -/
theorem matrix_format_exact_of_sample :
    let input : List UInt8 := word 2 ++ word 3 ++ [1, 0, 1, 0, 0, 1] ++ [7]
    Encoding.packed.canStore .two = true ∧ HoldsMatrix .two input ∧
      ∃ (m : RowMatrix .packed) (rest : List UInt8), decode .two input = pure (m, rest) ∧
        TakenFrom .two input m rest ∧ rest = [7] := by
  intro input
  have supported : Encoding.packed.canStore .two = true := rfl
  have holds : HoldsMatrix .two input := ⟨by decide, by decide, by decide +kernel⟩
  have fits : Fits .packed (announcedRows input) (announcedColumns input) := by decide
  obtain ⟨reads, takes, -⟩ := matrix_format_exact supported
  obtain ⟨m, rest, read⟩ := (reads input).mpr ⟨holds, fits⟩
  have taken := takes input m rest read
  refine ⟨supported, holds, m, rest, read, taken, ?_⟩
  rw [taken.rest, taken.rows, taken.columns]
  decide

end RowMatrix

end RowReduction
