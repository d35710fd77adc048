import Mathlib
import RowReduction.Proofs.Conversion
import RowReduction.Proofs.ObtainedBases

/-!
A replay takes the same combinations of the rows of a basis off the residues and puts them into the
answer, whatever the rows are. No echelon form is needed: pivots may clash and cleared columns may
be filled again, and the residue is still what the answer leaves of the initial rows.
-/
namespace RowReduction

variable {p : SmallPrime} {k m n r : Nat}

section Combinations

variable {K : Type*} [Ring K] {image : Matrix (Fin k) (Fin n) K}
  {combinations : Matrix (Fin k) (Fin m) K} {C : Matrix (Fin r) (Fin k) K}
  {L residue : Matrix (Fin r) (Fin n) K} {R : Matrix (Fin r) (Fin m) K}

/-- The rows of `L` lose combinations of the rows of the image, with coefficients `C`, and `R`
holds the same combinations of the rows that the image was computed from. -/
structure TakesOff (image : Matrix (Fin k) (Fin n) K) (combinations : Matrix (Fin k) (Fin m) K)
    (C : Matrix (Fin r) (Fin k) K) (L residue : Matrix (Fin r) (Fin n) K)
    (R : Matrix (Fin r) (Fin m) K) : Prop where
  rows : L = C * image + residue
  answer : R = C * combinations

/-- If the combinations are right, the answer gives what was taken off. -/
theorem TakesOff.sum (takes : TakesOff image combinations C L residue R)
    {S : Matrix (Fin m) (Fin n) K} (honest : combinations * S = image) : L = R * S + residue := by
  rw [takes.answer, Matrix.mul_assoc, honest]
  exact takes.rows

end Combinations

namespace PivotBasis

open EchelonForm

variable [Storage.Memory] {e : Encoding} {b : PivotBasis (RowMatrix e)} {l : RowMatrix e}
  {s : Reduction e}

/-- What a replay changes in a row, with its record, is a combination of the rows of the basis. -/
theorem Replays.row (replays : b.Replays l p k r n m s) {j : Nat} (inside : j < r) :
    ∃ c : Fin k → Residue p,
      l.vec p n j = ∑ t, c t • b.image.vec p n t + s.residues.vec p n j ∧
      s.subtracted.vec p m j = ∑ t, c t • b.combinations.vec p m t := by
  let rows (t : Fin k) : Pair p n m := Reduction.basisRow b p n m t
  have members : ∀ x ∈ b.pairs p k n m, Pair.vector p n m x ≠ 0 →
      x ∈ Submodule.span (Residue p) (Set.range rows) := by
    intro x member _
    obtain ⟨t, small, rfl⟩ := List.mem_map.mp member
    exact Submodule.subset_span ⟨⟨t, List.mem_range.mp small⟩, rfl⟩
  -- One combination accounts for both parts of the pair, so the coefficients are the same.
  have change := reduce_sub_mem (Pair.vector p n m) _ _ members (l.vec p n j, 0)
  rw [← replays.pairs j inside, Submodule.mem_span_range_iff_exists_fun] at change
  obtain ⟨c, sum⟩ := change
  have residue := congrArg Prod.fst sum
  have record := congrArg Prod.snd sum
  simp only [Prod.fst_sum, Prod.snd_sum, Prod.smul_fst, Prod.smul_snd, Prod.fst_sub, Prod.snd_sub,
    sub_zero, rows, Reduction.basisRow, Reduction.pair] at residue record
  refine ⟨-c, ?_, ?_⟩
  · simp [residue]
  · simp [record]

theorem Replays.takesOff (replays : b.Replays l p k r n m s) :
    ∃ C, TakesOff (b.image.grid p k n) (b.combinations.grid p k m) C (l.grid p r n)
      (s.residues.grid p r n) (s.subtracted.grid p r m) := by
  choose C residue answer using fun j : Fin r => replays.row j.isLt
  refine ⟨Matrix.of C, ?_, ?_⟩
  · ext j column
    have entry := congrFun (residue j) column
    simpa [RowMatrix.grid, Matrix.mul_apply, Finset.sum_apply] using entry
  · ext j column
    have entry := congrFun (answer j) column
    simpa [RowMatrix.grid, Matrix.mul_apply, Finset.sum_apply] using entry

end PivotBasis

namespace EncodedBasis

variable [Storage.Memory]

/-- The rows that a replay of `b` leaves of `l`, and its answer: combinations of the image were
taken off, and the answer holds the same combinations of the initial rows. So the residues are
what the answer leaves of `l`, for all rows that the image can have been computed from. -/
structure LeavesConsistent (b : EncodedBasis) (l residues answer : EncodedMatrix) : Prop where
  residues_encoding : residues.encoding = b.encoding
  answer_encoding : answer.encoding = b.encoding
  residues_shaped : residues.matrix.Shaped b.prime l.rows b.columns
  answer_shaped : answer.matrix.Shaped b.prime l.rows b.basis.sourceRows
  coefficients : ∃ C, TakesOff (b.basis.image.grid b.prime b.rank b.columns)
    (b.basis.combinations.grid b.prime b.rank b.basis.sourceRows) C
    (l.matrix.grid b.prime l.rows b.columns) (residues.matrix.grid b.prime l.rows b.columns)
    (answer.matrix.grid b.prime l.rows b.basis.sourceRows)
  sum : ∀ S : Matrix (Fin b.basis.sourceRows) (Fin b.columns) (Residue b.prime),
    b.basis.combinations.grid b.prime b.rank b.basis.sourceRows * S =
        b.basis.image.grid b.prime b.rank b.columns →
      l.matrix.grid b.prime l.rows b.columns =
        answer.matrix.grid b.prime l.rows b.basis.sourceRows * S +
          residues.matrix.grid b.prime l.rows b.columns

end EncodedBasis

variable {b : EncodedBasis} {l : EncodedMatrix}

/-- Whatever basis was read from bytes, a replay of it keeps the residues and the answer
consistent. -/
theorem replay_consistent [Storage.Memory] {input rest : List UInt8}
    (read : EncodedBasis.decode input = pure (b, rest)) (wf : l.matrix.WellFormed)
    (primes : l.prime = b.prime) (widths : l.columns = b.columns) (pacer : Pacer) :
    b.Valid ∧ Ends (b.preimages l pacer)
      (¬ (Fits b.encoding l.rows b.columns ∧ Fits b.encoding l.rows b.basis.sourceRows))
      (pacer.stopRow b.rank ≠ none)
      fun state answer => b.LeavesConsistent l state.1 answer := by
  have valid := EncodedBasis.valid_of_decode read
  have hl : l.matrix.Shaped b.prime l.rows b.columns := ⟨wf, primes, rfl, widths⟩
  refine ⟨valid, (EncodedBasis.preimages_ends valid hl pacer).imp id id ?_⟩
  rintro ⟨_, after⟩ _ ⟨converted, residues, subtracted, same, replays, rfl, rfl⟩
  obtain ⟨C, takes⟩ := replays.takesOff
  have initial : converted.grid b.prime l.rows b.columns =
      l.matrix.grid b.prime l.rows b.columns := by
    simp only [RowMatrix.grid, same.vec_eq hl]
  rw [initial] at takes
  exact {
    residues_encoding := rfl
    answer_encoding := rfl
    residues_shaped := replays.shaped.residues
    answer_shaped := replays.shaped.subtracted
    coefficients := ⟨C, takes⟩
    sum := fun S honest => takes.sum honest }

/-- A basis that is in no echelon form, and rows in another encoding. -/
theorem replay_consistent_of_sample :
    let b : EncodedBasis := ⟨.generic, refilling⟩
    let l : EncodedMatrix := ⟨.packed, .tabulate .packed .two 2 3 fun i j => i + j⟩
    EncodedBasis.decode b.encode = pure (b, []) ∧ l.matrix.WellFormed ∧ l.prime = b.prime ∧
      l.columns = b.columns ∧ ∀ pacer, b.Valid ∧ Ends (b.preimages l pacer)
        (¬ (Fits b.encoding l.rows b.columns ∧ Fits b.encoding l.rows b.basis.sourceRows))
        (pacer.stopRow b.rank ≠ none)
        fun state answer => b.LeavesConsistent l state.1 answer := by
  intro b l
  have read : EncodedBasis.decode (EncodedBasis.encode ⟨.generic, refilling⟩) =
      pure (⟨.generic, refilling⟩, []) := rfl
  have hl : l.matrix.Shaped .two 2 3 :=
    RowMatrix.tabulate_shaped (by decide) (by decide) (by decide) (by decide) _
  have primes : l.prime = b.prime := hl.prime
  have widths : l.columns = b.columns := hl.columns
  exact ⟨read, hl.wellFormed, primes, widths,
    replay_consistent read hl.wellFormed primes widths⟩

end RowReduction
