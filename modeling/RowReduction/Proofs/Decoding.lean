import Mathlib
import RowReduction.Proofs.PivotBasis
import RowReduction.Proofs.Preservation

/-!
Reading arbitrary bytes. What is read is written as exactly the bytes that were taken, and the
decoder of a basis ends on every input, with a basis or an error, except for one kind of header: an
image and combinations without columns, which need no buffer, and so many rows that the list of
their pivots does not fit in memory. Such a list is allocated before the first pivot is looked for.
-/
namespace RowReduction

variable {e : Encoding} {p : SmallPrime}

namespace Binary

variable {α β : Type}

/-! Decoders that end on every input, with what they read or an error. -/

def Total (d : Decoder α) : Prop := ∀ input, ∃ answer, d input = .ok answer

theorem total_pure (a : α) : Total (pure a) := fun input => ⟨.ok (a, input), rfl⟩

theorem total_throw (failure : DecodeError) : Total (throw failure : Decoder α) :=
  fun _ => ⟨.error failure, rfl⟩

theorem Total.bind {d : Decoder α} {next : α → Decoder β} (first : Total d)
    (second : ∀ a, Total (next a)) : Total (d >>= next) := by
  intro input
  obtain ⟨answer, run⟩ := first input
  rw [run_bind, run]
  cases answer with
  | error failure => exact ⟨.error failure, rfl⟩
  | ok taken => exact second taken.1 taken.2

/-- A sequence is stopped by its second part, if it is stopped. -/
theorem Total.run_bind_eq_error {d : Decoder α} {next : α → Decoder β} (total : Total d)
    {input : List UInt8} {v : Violation} : (d >>= next) input = .error v ↔
      ∃ a rest, d input = pure (a, rest) ∧ next a rest = .error v := by
  obtain ⟨answer, run⟩ := total input
  rw [run_bind, run]
  constructor
  · intro stopped
    cases answer with
    | error failure => cases stopped
    | ok taken => exact ⟨taken.1, taken.2, rfl, stopped⟩
  · rintro ⟨a, rest, ok, stopped⟩
    cases ok
    exact stopped

theorem total_takeByte : Total takeByte := by
  intro input
  cases input with
  | nil => exact ⟨.error .endOfInput, rfl⟩
  | cons b rest => exact ⟨.ok (b, rest), rfl⟩

theorem total_takeWord : Total takeWord := by
  intro input
  rw [takeWord_eq]
  split
  · exact ⟨.error .endOfInput, rfl⟩
  · exact ⟨.ok _, rfl⟩

theorem total_takeResidues (p : SmallPrime) (n : Nat) : Total (takeResidues p n) := by
  induction n with
  | zero => exact total_pure []
  | succ n ih =>
    refine total_takeByte.bind fun byte => ?_
    dsimp only
    split
    · exact total_throw _
    · exact ih.bind fun rest => total_pure _

theorem total_build {construction : Build α} (ends : ∃ answer, construction = .ok answer) :
    Total (build construction) := by
  intro input
  obtain ⟨answer, run⟩ := ends
  rw [run]
  cases answer with
  | error failure => exact ⟨.error .outOfMemory, rfl⟩
  | ok a => exact ⟨.ok (a, input), rfl⟩

end Binary

namespace RowMatrix

open Binary

/-- A matrix that was filled from a list of residues has them in the order of the list. -/
theorem flat_of_read {m : RowMatrix e} {r n : Nat} {residues : List Nat}
    (length : residues.length = r * n) (reduced : ∀ x ∈ residues, x < p.val)
    (values : ∀ i j, i < r → j < n →
      m.read i j = residues.toArray.getD (i * n + j) 0 % p.val) : m.flat r n = residues := by
  apply List.ext_getElem
  · rw [length_flat, length]
  · intro k _ inside
    obtain ⟨row, column⟩ := position_lt (show k < r * n from length ▸ inside)
    have position : k / n * n + k % n = k := Nat.div_add_mod' k n
    have small := reduced _ (List.getElem_mem inside)
    simp only [flat, List.getElem_map, List.getElem_range, values _ _ row column, position]
    simp [inside, Nat.mod_eq_of_lt small]

variable [Storage.Memory]

/-- The bytes that were read are those that the matrix is written as. -/
theorem bytes_of_decode {m : RowMatrix e} {input rest : List UInt8}
    (read : decode p input = pure (m, rest)) : input = m.encode ++ rest := by
  simp only [decode, run_bind_eq_pure] at read
  obtain ⟨rows, _, rows_read, columns, _, columns_read, _, _, checked, residues, _, taken, empty, _,
    built, filled⟩ := read
  obtain ⟨rows_le, rfl⟩ := takeWord_eq_pure.mp rows_read
  obtain ⟨columns_le, rfl⟩ := takeWord_eq_pure.mp columns_read
  obtain ⟨-, rfl⟩ := build_eq_pure.mp checked
  obtain ⟨length, reduced, rfl⟩ := takeResidues_eq_pure.mp taken
  obtain ⟨allocated, rfl⟩ := build_eq_pure.mp built
  have fresh := Shaped.of_new rows_le columns_le allocated
  obtain ⟨shaped, values⟩ := fresh.fill_ok fun i j => residues.toArray.getD (i * columns + j) 0
  cases filled
  rw [shaped.encode_eq, flat_of_read length reduced values]
  simp only [List.append_assoc]

theorem Shaped.encode_of_no_columns {m : RowMatrix e} {r : Nat} (h : m.Shaped p r 0) :
    m.encode = word r ++ word 0 := by
  rw [h.encode_eq, flat, Nat.mul_zero]
  rfl

/-- A matrix without columns has no entries, so a header of it is all there is to read. -/
theorem reads_header (supported : e.canStore p = true) {rows : Nat}
    (size : rows ≤ Storage.maxSize) :
    Reads (decode p) (word rows ++ word 0) (blank e p rows 0) := by
  have none_left : e.rowCells 0 = 0 := by cases e <;> decide
  have fits : Fits e rows 0 := by
    rw [Fits, none_left, Storage.length, Nat.mul_zero, Nat.zero_min, Nat.zero_mul]
    exact Storage.allocationLimit_pos
  have empty := blank_shaped supported size (Nat.zero_le _) fits
  rw [← empty.encode_of_no_columns]
  exact empty.reads_decode

theorem checkNew_ends (supported : e.canStore p = true) (r n : Nat) :
    ∃ answer, checkNew e p r n = .ok answer := by
  by_cases fits : Fits e r n
  · exact ⟨_, checkNew_of_fits supported fits⟩
  · obtain ⟨_, _, refused⟩ := checkNew_of_not_fits supported fits
    exact ⟨_, refused⟩

theorem new_ends (supported : e.canStore p = true) (r n : Nat) :
    ∃ answer, (new p r n : Build (RowMatrix e)) = .ok answer := by
  by_cases fits : Fits e r n
  · exact ⟨_, new_of_fits supported fits⟩
  · obtain ⟨_, _, refused⟩ := new_of_not_fits supported fits
    exact ⟨_, refused⟩

theorem total_decode (supported : e.canStore p = true) :
    Total (decode p : Decoder (RowMatrix e)) := by
  refine total_takeWord.bind fun rows => total_takeWord.bind fun columns => ?_
  refine (total_build (checkNew_ends supported rows columns)).bind fun _ => ?_
  refine (total_takeResidues p (rows * columns)).bind fun residues => ?_
  exact (total_build (new_ends supported rows columns)).bind fun m => total_pure _

end RowMatrix

namespace PivotBasis

variable [Storage.Memory]

open Binary

theorem takePivots_ends {image : RowMatrix e} {r n : Nat} (h : image.Shaped p r n)
    {remaining start : Nat} (room : start + remaining ≤ r) (input : List UInt8) :
    ∃ answer, takePivots image remaining start input = .ok answer := by
  induction remaining generalizing start input with
  | zero => exact total_pure [] input
  | succ remaining ih =>
    rw [takePivots_succ h (by omega)]
    obtain ⟨answer, run⟩ := total_takeWord input
    rw [run]
    cases answer with
    | error failure => exact ⟨.error failure, rfl⟩
    | ok taken =>
      cases found : pivotOf (image.vec p n start) start with
      | none => exact ⟨.error (.misplacedPivot start taken.1), rfl⟩
      | some pivot =>
        by_cases same : pivot.column = taken.1
        · have later : start + 1 + remaining ≤ r := by omega
          obtain ⟨answer, others⟩ := ih later taken.2
          refine ⟨answer.map fun later => (pivot :: later.1, later.2), ?_⟩
          change (if pivot.column = taken.1 then _ else _) = _
          rw [if_pos same, others]
          cases answer <;> rfl
        · exact ⟨.error (.misplacedPivot start taken.1), if_neg same⟩

theorem requireListFits_eq_error {rows : Nat} {v : Violation} :
    requireListFits rows = .error v ↔
      v = .capacityExceeded ∧ Storage.allocationLimit ≤ rows * wordBytes := by
  by_cases large : rows * wordBytes < Storage.allocationLimit
  · simp [requireListFits, require, large]
  · simp [requireListFits, require, large, Nat.le_of_not_lt, eq_comm]

/-- Only rows that take no memory can be so many that the list of their pivots does not fit. -/
theorem columns_eq_zero {m : RowMatrix e} {r n : Nat} (h : m.Shaped p r n) {v : Violation}
    (refused : requireListFits r = .error v) : n = 0 := by
  apply Nat.eq_zero_of_not_pos
  intro wide
  cases (requireListFits_of_columns h wide).symm.trans refused

/-- Reading a basis over a prime that its encoding supports breaks a rule for such headers only. -/
theorem decode_eq_error (supported : e.canStore p = true) {input : List UInt8} {v : Violation} :
    (decode p : Decoder (PivotBasis (RowMatrix e))) input = .error v ↔ v = .capacityExceeded ∧
      ∃ rows rest, rows ≤ Storage.maxSize ∧ Storage.allocationLimit ≤ rows * wordBytes ∧
        input = word rows ++ word 0 ++ (word rows ++ word 0 ++ rest) := by
  have total := RowMatrix.total_decode supported
  rw [decode, total.run_bind_eq_error]
  constructor
  · rintro ⟨image, _, image_read, stopped⟩
    obtain ⟨combinations, rest, combinations_read, stopped⟩ := total.run_bind_eq_error.mp stopped
    have hi := RowMatrix.Shaped.of_decode image_read
    have hc := RowMatrix.Shaped.of_decode combinations_read
    split at stopped
    · obtain ⟨_, _, thrown, _⟩ := (total_throw _).run_bind_eq_error.mp stopped
      cases thrown
    · rename_i counts
      have counts : combinations.rows = image.rows := not_not.mp counts
      rw [counts] at hc
      dsimp only at stopped
      cases fits : requireListFits image.rows with
      | ok =>
        rw [run_lift_bind fits, run_bind] at stopped
        obtain ⟨answer, run⟩ := takePivots_ends hi (Nat.zero_add _).le rest
        rw [run] at stopped
        cases answer <;> cases stopped
      | error w =>
        rw [run_lift_bind_error fits] at stopped
        cases stopped
        obtain ⟨rfl, large⟩ := requireListFits_eq_error.mp fits
        rw [columns_eq_zero hi fits] at hi
        rw [columns_eq_zero hc fits] at hc
        refine ⟨rfl, image.rows, rest, hi.rows_le, large, ?_⟩
        rw [RowMatrix.bytes_of_decode image_read, RowMatrix.bytes_of_decode combinations_read,
          hi.encode_of_no_columns, hc.encode_of_no_columns]
  · rintro ⟨rfl, rows, rest, size, large, rfl⟩
    have read := RowMatrix.reads_header supported size
    refine ⟨_, _, read _, total.run_bind_eq_error.mpr ⟨_, _, read _, ?_⟩⟩
    rw [if_neg (not_not.mpr rfl)]
    exact run_lift_bind_error (requireListFits_eq_error.mpr ⟨rfl, large⟩) _ rest

end PivotBasis

namespace EncodedBasis

open Binary

/-- The decoder of a basis answers every input with a basis or an error, unless the image and the
combinations have no columns and so many rows that the list of the pivots does not fit. -/
theorem decode_stops_iff [Storage.Memory] {input : List UInt8} {v : Violation} :
    decode input = .error v ↔ v = .capacityExceeded ∧
      ∃ (p : SmallPrime) (e : Encoding) (rows : Nat) (rest : List UInt8), e.canStore p = true ∧
        rows ≤ Storage.maxSize ∧ Storage.allocationLimit ≤ rows * wordBytes ∧
        input = UInt8.ofNat p.val :: tag e ::
          (word rows ++ word 0 ++ (word rows ++ word 0 ++ rest)) := by
  have body {p : SmallPrime} {e : Encoding} (supported : e.canStore p = true)
      (input : List UInt8) : decode (UInt8.ofNat p.val :: tag e :: input) = .error v ↔
        (PivotBasis.decode p : Decoder (PivotBasis (RowMatrix e))) input = .error v := by
    rw [decode_header supported]
    match (PivotBasis.decode p : Decoder (PivotBasis (RowMatrix e))) input with
    | .error w =>
      constructor <;>
      · intro same
        cases same
        rfl
    | .ok (.error failure) => exact ⟨nofun, nofun⟩
    | .ok (.ok taken) => exact ⟨nofun, nofun⟩
  constructor
  · intro stopped
    rcases decode_cases input with ⟨failure, ended⟩ | ⟨p, e, rest, supported, rfl⟩
    · cases ended.symm.trans stopped
    · rw [body supported, PivotBasis.decode_eq_error supported] at stopped
      obtain ⟨rfl, rows, rest, size, large, rfl⟩ := stopped
      exact ⟨rfl, p, e, rows, rest, supported, size, large, rfl⟩
  · rintro ⟨rfl, p, e, rows, rest, supported, size, large, rfl⟩
    rw [body supported, PivotBasis.decode_eq_error supported]
    exact ⟨rfl, rows, rest, size, large, rfl⟩

/-- No bytes follow this header, and still it is not the end of the input that is reported. -/
theorem decode_stops_at_header :
    decode (3 :: 0 :: (word (1 <<< 60) ++ word 0 ++ (word (1 <<< 60) ++ word 0))) =
      .error .capacityExceeded := by
  rfl

end EncodedBasis

end RowReduction
