import Mathlib
import RowReduction.Proofs.Endings
import RowReduction.Proofs.Outcomes

/-!
Calls on matrices that carry their encoding. Such a call stores one matrix in the encoding of the
other, which needs a buffer of its own if the two encodings differ, and goes on as the call on
matrices of one encoding. Unequal widths are found before anything is stored, except for the image
that a quotient is taken by.
-/
namespace RowReduction

variable {f : Encoding}

/-- The outputs of a splitting of a matrix in encoding `e`. -/
def Splitting.inEncoding {e : Encoding} (d : Splitting (RowMatrix e)) : EncodedSplitting :=
  ⟨d.rank, d.kernel.map (⟨e, ·⟩), d.dual.map (⟨e, ·⟩), d.basis.map (⟨e, ·⟩)⟩

namespace EncodedMatrix

variable [Storage.Memory] {m l image : EncodedMatrix} {wanted : Wanted} {pacer after : Pacer}
  {failure : StorageError}

theorem fits_of_encoding (wf : m.matrix.WellFormed) (same : m.encoding = f) :
    Fits f m.rows m.columns := by
  subst same
  exact wf.shaped.fits

theorem inEncoding_of_fits (wf : m.matrix.WellFormed) (supported : f.canStore m.prime = true)
    (fits : Fits f m.rows m.columns) : ∃ converted, m.inEncoding f = pure converted ∧
      m.matrix.Same converted := by
  have stored : ∃ converted, m.inEncoding f = pure converted := by
    unfold inEncoding
    split
    · exact ⟨_, rfl⟩
    · obtain ⟨copy, recoded, -⟩ := wf.shaped.recode_ok supported fits
      exact ⟨copy, recoded⟩
  obtain ⟨converted, call⟩ := stored
  exact ⟨converted, call, same_of_inEncoding wf call⟩

/-- A matrix over `p` with `n` columns can be had in each encoding that supports `p`, if it fits. -/
theorem inEncoding_shaped {p : SmallPrime} {n : Nat} (wf : m.matrix.WellFormed)
    (supported : f.canStore p = true) (primes : m.prime = p) (widths : n = m.columns)
    (fits : Fits f m.rows m.columns) : ∃ converted, m.inEncoding f = pure converted ∧
      converted.Shaped p m.rows n ∧ m.matrix.Same converted := by
  obtain ⟨converted, call, same⟩ := inEncoding_of_fits wf (primes ▸ supported) fits
  exact ⟨converted, call, same.shaped ⟨wf, primes, rfl, widths.symm⟩, same⟩

/-- A conversion to an encoding that supports the prime only ever fails for want of memory. -/
theorem inEncoding_of_not_fits (wf : m.matrix.WellFormed)
    (supported : f.canStore m.prime = true) (large : ¬ Fits f m.rows m.columns) :
    ∃ cells bytes, m.inEncoding f = throw (.outOfMemory cells bytes) := by
  have apart : m.encoding ≠ f := fun same => large (fits_of_encoding wf same)
  rw [inEncoding, dif_neg apart, wf.shaped.recode_eq supported]
  exact RowMatrix.tabulated_of_not_fits supported large m.matrix.read

theorem split_of_row {left : RowMatrix m.encoding}
    {answer : Except ReductionError (Splitting (RowMatrix m.encoding))}
    (call : m.matrix.split wanted pacer = .ok ⟨(left, after), answer⟩) :
    m.split wanted pacer =
      .ok ⟨(⟨m.encoding, left⟩, after), answer.map Splitting.inEncoding⟩ := by
  rw [split, call]
  rfl

theorem preimages_of_converted (widths : m.columns = l.columns)
    {converted : RowMatrix m.encoding} (stored : l.inEncoding m.encoding = pure converted)
    {left : PreimageState m.encoding} {answer : Except ReductionError (RowMatrix m.encoding)}
    (call : m.matrix.preimages converted pacer = .ok ⟨left, answer⟩) :
    m.preimages l pacer =
      .ok ⟨⟨⟨m.encoding, left.matrix⟩, ⟨m.encoding, left.residues⟩, left.pacer⟩,
        answer.map fun r => ⟨m.encoding, r⟩⟩ := by
  rw [preimages, checkWidths_eq_ok.mpr widths, stored]
  exact bind_eq_ok.mpr ⟨.ok converted, rfl, bind_eq_ok.mpr ⟨_, call, rfl⟩⟩

theorem preimages_of_unconverted (widths : m.columns = l.columns)
    (refused : l.inEncoding m.encoding = throw failure) :
    m.preimages l pacer = .ok ⟨⟨m, l, pacer⟩, .error (.storage failure)⟩ := by
  rw [preimages, checkWidths_eq_ok.mpr widths, refused]
  rfl

theorem preimages_of_widths_ne (apart : m.columns ≠ l.columns) :
    m.preimages l pacer =
      .ok ⟨⟨m, l, pacer⟩, .error (.storage (.widthMismatch m.columns l.columns))⟩ := by
  have widths : checkWidths m.columns l.columns = .error (.widthMismatch m.columns l.columns) :=
    if_neg apart
  rw [preimages, widths]
  rfl

theorem quotientBasis_of_converted {converted left : RowMatrix m.encoding}
    (stored : image.inEncoding m.encoding = pure converted)
    {answer : Except ReductionError Unit}
    (call : m.matrix.quotientBasis converted pacer = .ok ⟨(left, after), answer⟩) :
    m.quotientBasis image pacer = .ok ⟨(⟨m.encoding, left⟩, after), answer⟩ := by
  rw [quotientBasis, stored]
  exact bind_eq_ok.mpr ⟨.ok converted, rfl, bind_eq_ok.mpr ⟨_, call, rfl⟩⟩

theorem quotientBasis_of_unconverted (refused : image.inEncoding m.encoding = throw failure) :
    m.quotientBasis image pacer = .ok ⟨(m, pacer), .error (.storage failure)⟩ := by
  rw [quotientBasis, refused]
  rfl

end EncodedMatrix

namespace EncodedBasis

variable [Storage.Memory] {b : EncodedBasis} {l : EncodedMatrix} {pacer after : Pacer}
  {failure : StorageError}

theorem preimages_of_converted (widths : b.columns = l.columns)
    {converted residues : RowMatrix b.encoding} (stored : l.inEncoding b.encoding = pure converted)
    {answer : Except ReductionError (RowMatrix b.encoding)}
    (call : b.basis.preimages converted pacer = .ok ⟨(residues, after), answer⟩) :
    b.preimages l pacer =
      .ok ⟨(⟨b.encoding, residues⟩, after), answer.map fun r => ⟨b.encoding, r⟩⟩ := by
  rw [preimages, checkWidths_eq_ok.mpr widths, stored]
  exact bind_eq_ok.mpr ⟨.ok converted, rfl, bind_eq_ok.mpr ⟨_, call, rfl⟩⟩

theorem preimages_of_unconverted (widths : b.columns = l.columns)
    (refused : l.inEncoding b.encoding = throw failure) :
    b.preimages l pacer = .ok ⟨(l, pacer), .error (.storage failure)⟩ := by
  rw [preimages, checkWidths_eq_ok.mpr widths, refused]
  rfl

theorem preimages_of_widths_ne (apart : b.columns ≠ l.columns) :
    b.preimages l pacer =
      .ok ⟨(l, pacer), .error (.storage (.widthMismatch b.columns l.columns))⟩ := by
  have widths : checkWidths b.columns l.columns = .error (.widthMismatch b.columns l.columns) :=
    if_neg apart
  rw [preimages, widths]
  rfl

/-- A replay on a matrix in any encoding is a replay on its copy in the encoding of the basis. -/
theorem preimages_ends {p : SmallPrime} {k m n r : Nat} (h : b.basis.Shaped p k n m)
    (hl : l.matrix.Shaped p r n) (pacer : Pacer) :
    Ends (b.preimages l pacer) (¬ (Fits b.encoding r n ∧ Fits b.encoding r m))
      (pacer.stopRow k ≠ none)
      fun state answer => ∃ converted residues subtracted, l.matrix.Same converted ∧
        b.basis.Replays converted p k r n m ⟨residues, subtracted⟩ ∧
        state.1 = ⟨b.encoding, residues⟩ ∧ answer = ⟨b.encoding, subtracted⟩ := by
  have widths : b.columns = l.columns := h.image.columns.trans hl.columns.symm
  have primes : l.prime = p := hl.prime
  have supported : b.encoding.canStore l.prime = true := primes ▸ h.image.supported
  have shape : Fits b.encoding l.rows l.columns ↔ Fits b.encoding r n := by
    rw [EncodedMatrix.rows, EncodedMatrix.columns, hl.rows, hl.columns]
  by_cases fits : Fits b.encoding r n
  · obtain ⟨converted, stored, same⟩ :=
      EncodedMatrix.inEncoding_of_fits hl.wellFormed supported (shape.mpr fits)
    obtain ⟨⟨⟨residues, after⟩, answer⟩, call, ended⟩ :=
      PivotBasis.preimages_ends h (same.shaped hl) pacer
    refine ⟨_, preimages_of_converted widths stored call, ?_⟩
    cases answer with
    | error failure =>
      cases failure with
      | storage failure => exact fun enough => ended enough.2
      | interrupted => exact ended
    | ok answer => exact ⟨converted, residues, answer, same, ended, rfl, rfl⟩
  · obtain ⟨cells, bytes, refused⟩ :=
      EncodedMatrix.inEncoding_of_not_fits hl.wellFormed supported (mt shape.mp fits)
    exact ⟨_, preimages_of_unconverted widths refused, fun enough => fits enough.1⟩

end EncodedBasis

end RowReduction
