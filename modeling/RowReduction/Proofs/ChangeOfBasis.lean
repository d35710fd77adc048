import Mathlib
import RowReduction.Proofs.Kernel
import RowReduction.Proofs.Preimages

/-!
The change of basis, put together again from what a split answers: the combinations of the basis
stand at the surviving rows and the kernel at the eliminated ones. It is unit triangular, so it has
an inverse, and its columns at the eliminated rows are unit vectors. The dual consists of the unit
vectors of these rows, which makes it the inverse transpose at the same places.
-/
namespace RowReduction

open EchelonForm

section Assembled

variable {K : Type*} [Field K] {k m n r : Nat}

/-- The places of the surviving rows, on the left, and of the eliminated rows, on the right, each in
their order. A row is eliminated if it depends on the rows before it. -/
structure SortsRows (A : Matrix (Fin m) (Fin n) K) (place : Fin r ⊕ Fin k ≃ Fin m) : Prop where
  surviving : StrictMono fun i => place (.inl i)
  eliminated : StrictMono fun t => place (.inr t)
  dependent : ∀ q, (∃ t, place (.inr t) = q) ↔ A.row q ∈ Submodule.span K (A.row '' Set.Iio q)

/-- The square matrix with the rows of `combinations` and `kernel` at their places. -/
def assemble (place : Fin r ⊕ Fin k ≃ Fin m) (combinations : Matrix (Fin r) (Fin m) K)
    (kernel : Matrix (Fin k) (Fin m) K) : Matrix (Fin m) (Fin m) K :=
  (Matrix.fromRows combinations kernel).submatrix place.symm id

/-- The dual of a kernel pairs with it to the identity and with the other rows of the change of
basis to zero. It is the inverse transpose of the change of basis at the eliminated rows, and holds
their unit vectors. -/
structure DualOf (A : Matrix (Fin m) (Fin n) K) (combinations : Matrix (Fin r) (Fin m) K)
    (kernel dual : Matrix (Fin k) (Fin m) K) : Prop where
  kernel_mul : kernel * dual.transpose = 1
  combinations_mul : combinations * dual.transpose = 0
  inverse : ∃ place : Fin r ⊕ Fin k ≃ Fin m, SortsRows A place ∧
    IsUnit (assemble place combinations kernel) ∧
    dual = (assemble place combinations kernel)⁻¹.transpose.submatrix
      (fun t => place (.inr t)) id ∧
    ∀ t, dual.row t = Pi.single (place (.inr t)) 1

variable {place : Fin r ⊕ Fin k ≃ Fin m} {combinations : Matrix (Fin r) (Fin m) K}
  {kernel dual : Matrix (Fin k) (Fin m) K}

omit [Field K] in
theorem assemble_place (x : Fin r ⊕ Fin k) :
    assemble place combinations kernel (place x) = Matrix.fromRows combinations kernel x := by
  funext l
  simp only [assemble, Matrix.submatrix_apply, Equiv.symm_apply_apply, id]

theorem isUnit_of_unit_triangular {U : Matrix (Fin m) (Fin m) K} (diagonal : ∀ i, U i i = 1)
    (after : ∀ i l, i < l → U i l = 0) : IsUnit U := by
  have determinant : U.det = 1 := by
    rw [Matrix.det_of_isLowerTriangular U fun i l later => after i l later]
    exact Finset.prod_eq_one fun i _ => diagonal i
  rw [Matrix.isUnit_iff_isUnit_det, determinant]
  exact isUnit_one

/-- Pairing with unit vectors reads off columns. -/
theorem mul_transpose_of_single {M : Matrix (Fin r) (Fin m) K} {column : Fin k → Fin m}
    (rows : ∀ t, dual.row t = Pi.single (column t) 1) (i : Fin r) (t : Fin k) :
    (M * dual.transpose) i t = M i (column t) := by
  have unit : (fun l => dual.transpose l t) = Pi.single (column t) 1 := rows t
  rw [Matrix.mul_apply', unit, dotProduct_single_one]

variable (place) in
theorem assemble_mul (N : Matrix (Fin m) (Fin n) K) (x : Fin r ⊕ Fin k) :
    (assemble place combinations kernel * N) (place x) =
      Matrix.fromRows (combinations * N) (kernel * N) x := by
  funext l
  rw [← Matrix.fromRows_mul]
  simp only [Matrix.mul_apply, assemble_place]

/-- If the columns of the assembled matrix at the eliminated rows are unit vectors, then so are those
of its inverse, and the same unit vectors are the dual. -/
theorem dualOf_units {A : Matrix (Fin m) (Fin n) K} (sorted : SortsRows A place)
    (unit : IsUnit (assemble place combinations kernel))
    (columns : ∀ q t, assemble place combinations kernel q (place (.inr t)) =
      if q = place (.inr t) then 1 else 0)
    (rows : ∀ t, dual.row t = Pi.single (place (.inr t)) 1) :
    DualOf A combinations kernel dual := by
  have product : assemble place combinations kernel * dual.transpose =
      (1 : Matrix (Fin m) (Fin m) K).submatrix id fun t => place (.inr t) := by
    ext q t
    rw [mul_transpose_of_single rows, columns, Matrix.submatrix_apply, Matrix.one_apply, id]
  have entry (x : Fin r ⊕ Fin k) (t : Fin k) :
      Matrix.fromRows (combinations * dual.transpose) (kernel * dual.transpose) x t =
        if x = .inr t then 1 else 0 := by
    rw [← assemble_mul place, product, Matrix.submatrix_apply, Matrix.one_apply, id]
    simp only [EmbeddingLike.apply_eq_iff_eq]
  have inverse : (assemble place combinations kernel)⁻¹.submatrix id (fun t => place (.inr t)) =
      dual.transpose := by
    have invertible := (Matrix.isUnit_iff_isUnit_det _).mp unit
    calc (assemble place combinations kernel)⁻¹.submatrix id (fun t => place (.inr t))
        = (assemble place combinations kernel)⁻¹ *
            (1 : Matrix (Fin m) (Fin m) K).submatrix id (fun t => place (.inr t)) := by
          have moved := Matrix.submatrix_mul_equiv (assemble place combinations kernel)⁻¹
            (1 : Matrix (Fin m) (Fin m) K) id (Equiv.refl _) fun t => place (.inr t)
          rw [mul_one] at moved
          exact moved.symm
      _ = (assemble place combinations kernel)⁻¹ *
            (assemble place combinations kernel * dual.transpose) := by rw [product]
      _ = dual.transpose := Matrix.nonsing_inv_mul_cancel_left _ _ invertible
  refine ⟨?_, ?_, place, sorted, unit, (congrArg Matrix.transpose inverse).symm, rows⟩
  · ext t s
    have pairing := entry (.inr t) s
    simpa [Matrix.one_apply] using pairing
  · ext i s
    have pairing := entry (.inl i) s
    simpa using pairing

variable [DecidableEq K]

/-- A basis expresses its image in the rows of a matrix. Each row of the image has its pivot, with
minus the inverse of the entry there, and its combination starts from one surviving row with a 1 and
takes nothing from later rows or from eliminated ones. -/
structure BasisOf (A : Matrix (Fin m) (Fin n) K) (image : Matrix (Fin r) (Fin n) K)
    (combinations : Matrix (Fin r) (Fin m) K) (pivots : List Pivot) : Prop where
  product : combinations * A = image
  pivots : ∀ i : Fin r, ∃ pivot c, pivots[i.val]? = some pivot ∧ pivot.row = i ∧
    pivot.column = Fin.val c ∧ lead (image.row i) = some c ∧
    (pivot.coefficient : K) * image i c = -1
  unit : ∃ (k : Nat) (place : Fin r ⊕ Fin k ≃ Fin m), SortsRows A place ∧
    ∀ i, combinations i (place (.inl i)) = 1 ∧
      (∀ l, place (.inl i) < l → combinations i l = 0) ∧
      ∀ t, combinations i (place (.inr t)) = 0

end Assembled

namespace RowMatrix

variable {e : Encoding} {a left kernel dual : RowMatrix e} {b : PivotBasis (RowMatrix e)}

theorem mem_dependentOf {q : Fin a.rows} : q.val ∈ a.dependentOf ↔
    (a.grid a.prime a.rows a.columns).row q ∈ Submodule.span (Residue a.prime)
      ((a.grid a.prime a.rows a.columns).row '' Set.Iio q) := by
  rw [dependentOf, mem_dependentBefore, image_row_Iio]
  exact (and_iff_right q.isLt).trans settledRow_eq_zero

/-- Places of the rows that follow the lists of pivots and of dependent rows. -/
structure Places (a : RowMatrix e)
    (place : Fin a.pivotsOf.length ⊕ Fin a.dependentOf.length ≃ Fin a.rows) : Prop where
  sorted : SortsRows (a.grid a.prime a.rows a.columns) place
  kept : ∀ i, (place (.inl i)).val = (a.pivotsOf.get i).row
  dropped : ∀ t, (place (.inr t)).val = a.dependentOf.get t

variable (a) in
/-- Every row is the row of a pivot or dependent, and both are listed in order. -/
theorem exists_places : ∃ place, a.Places place := by
  have total : a.pivotsOf.length + a.dependentOf.length = a.rows := length_pivotsOf_add
  have increasing := List.pairwise_iff_getElem.mp (pivotsBefore_pairwise a.recordedRows a.rows)
  have increasing' := List.pairwise_iff_getElem.mp (dependentBefore_pairwise a.recordedRows a.rows)
  let kept (i : Fin a.pivotsOf.length) : Fin a.rows :=
    ⟨a.pivotsOf[i.val].row, pivotsOf_row_lt (List.getElem_mem i.isLt)⟩
  let dropped (t : Fin a.dependentOf.length) : Fin a.rows :=
    ⟨a.dependentOf[t.val], dependentOf_lt (List.getElem_mem t.isLt)⟩
  have kept_mono : StrictMono kept := fun i j before => increasing i j i.isLt j.isLt before
  have dropped_mono : StrictMono dropped := fun t s before => increasing' t s t.isLt s.isLt before
  have apart (i : Fin a.pivotsOf.length) (t : Fin a.dependentOf.length) : kept i ≠ dropped t := by
    intro same
    have found := (mem_pivotsBefore.mp (List.getElem_mem i.isLt)).2
    have zero := (mem_dependentBefore.mp (List.getElem_mem t.isLt)).2
    have rows : a.pivotsOf[i.val].row = a.dependentOf[t.val] := congrArg Fin.val same
    rw [← rows] at zero
    exact ne_zero_of_pivotOf found zero
  have bijective : Function.Bijective (Sum.elim kept dropped) := by
    rw [Fintype.bijective_iff_injective_and_card]
    refine ⟨kept_mono.injective.sumElim dropped_mono.injective apart, ?_⟩
    rw [Fintype.card_sum, Fintype.card_fin, Fintype.card_fin, Fintype.card_fin, total]
  refine ⟨Equiv.ofBijective _ bijective, ⟨kept_mono, dropped_mono, ?_⟩, fun _ => rfl, fun _ => rfl⟩
  intro q
  rw [← mem_dependentOf]
  constructor
  · rintro ⟨t, rfl⟩
    exact List.getElem_mem t.isLt
  · intro member
    obtain ⟨t, inside, place⟩ := List.mem_iff_getElem.mp member
    exact ⟨⟨t, inside⟩, Fin.ext place⟩

/-- No record but that of a dependent row itself has an entry at the row. -/
theorem Places.record {place : Fin a.pivotsOf.length ⊕ Fin a.dependentOf.length ≃ Fin a.rows}
    (places : a.Places place) (q : Fin a.rows) (t : Fin a.dependentOf.length) :
    (a.settledPair q).2 (place (.inr t)) = if q = place (.inr t) then 1 else 0 := by
  have zero : (a.settledPair (place (.inr t))).1 = 0 := by
    rw [places.dropped]
    exact (mem_dependentBefore.mp (List.getElem_mem t.isLt)).2
  refine (record_settledRow q.val _ (Or.inr zero)).trans ?_
  simp only [Fin.ext_iff, eq_comm]

section

variable [Storage.Memory]

theorem HoldsBasis.row_eq (holds : a.HoldsBasis left b) (i : Fin a.pivotsOf.length) :
    (b.combinations.grid a.prime a.pivotsOf.length a.rows).row i =
      (a.settledPair (a.pivotsOf.get i).row).2 :=
  holds.rows i _ (List.getElem?_eq_getElem i.isLt)

theorem HoldsDual.row_eq (holds : a.HoldsDual dual) (t : Fin a.dependentOf.length) :
    (dual.grid a.prime a.dependentOf.length a.rows).row t =
      (a.recordedRows (a.dependentOf.get t)).2 :=
  holds.rows t _ (List.getElem?_eq_getElem t.isLt)

/-- A combination starts from the surviving row itself, and takes nothing from later rows or from
dependent ones. -/
theorem HoldsBasis.unit_combination (holds : a.HoldsBasis left b)
    {place : Fin a.pivotsOf.length ⊕ Fin a.dependentOf.length ≃ Fin a.rows}
    (places : a.Places place) (i : Fin a.pivotsOf.length) :
    b.combinations.grid a.prime a.pivotsOf.length a.rows i (place (.inl i)) = 1 ∧
      (∀ l, place (.inl i) < l →
        b.combinations.grid a.prime a.pivotsOf.length a.rows i l = 0) ∧
      ∀ t, b.combinations.grid a.prime a.pivotsOf.length a.rows i (place (.inr t)) = 0 := by
  have entry (l : Fin a.rows) : b.combinations.grid a.prime a.pivotsOf.length a.rows i l =
      (a.settledPair (place (.inl i))).2 l := by
    rw [places.kept i]
    exact congrFun (holds.row_eq i) l
  refine ⟨?_, ?_, ?_⟩
  · rw [entry]
    exact (record_settledRow _ _ (Or.inl (Nat.le_refl _))).trans (if_pos rfl)
  · intro l later
    rw [entry]
    exact (record_settledRow _ _ (Or.inl (Nat.le_of_lt later))).trans (if_neg (Nat.ne_of_gt later))
  · intro t
    rw [entry, places.record, if_neg]
    exact fun same => Sum.inl_ne_inr (place.injective same)

/-- The basis that is collected belongs to the image. -/
theorem HoldsBasis.basisOf (holds : a.HoldsBasis left b) (image : a.HoldsImage left) :
    BasisOf (a.grid a.prime a.rows a.columns)
      (left.grid a.prime a.pivotsOf.length a.columns)
      (b.combinations.grid a.prime a.pivotsOf.length a.rows) b.pivots where
  product := by
    funext i
    have inside : a.pivotsOf[i.val].row < a.rows := pivotsOf_row_lt (List.getElem_mem i.isLt)
    have member : a.settledPair a.pivotsOf[i.val].row ∈
        honest (a.vec a.prime a.columns) a.rows := settledRow_honest inside
    have sum := mem_honest.mp member
    have record := holds.row_eq i
    rw [List.get_eq_getElem] at record
    rw [← image.row_eq i, ← record] at sum
    rw [Matrix.mul_apply_eq_vecMul, Matrix.vecMul_eq_sum]
    exact sum.symm
  pivots := by
    intro i
    have place := List.getElem?_eq_getElem i.isLt
    obtain ⟨c, leads, same⟩ :=
      pivotOf_eq_some.mp (mem_pivotsBefore.mp (List.getElem_mem i.isLt)).2
    rw [← image.row_eq i] at leads same
    have nonzero := (lead_eq_some.mp leads).1
    refine ⟨{ a.pivotsOf[i.val] with row := i }, c, ?_, rfl, congrArg Pivot.column same, leads, ?_⟩
    · rw [holds.pivots, PivotBasis.getElem?_renumber]
      exact congrArg (Option.map _) place
    · rw [congrArg Pivot.coefficient same, ZMod.natCast_zmod_val, neg_mul]
      exact congrArg Neg.neg (inv_mul_cancel₀ nonzero)
  unit := by
    obtain ⟨place, places⟩ := a.exists_places
    exact ⟨_, place, places.sorted, holds.unit_combination places⟩

/-- What a split answers with fits together: the assembled rows are the records of all rows. -/
theorem HoldsBasis.dualOf (basis : a.HoldsBasis left b) (holds : a.HoldsKernel kernel)
    (units : a.HoldsDual dual) :
    DualOf (a.grid a.prime a.rows a.columns)
      (b.combinations.grid a.prime a.pivotsOf.length a.rows)
      (kernel.grid a.prime a.dependentOf.length a.rows)
      (dual.grid a.prime a.dependentOf.length a.rows) := by
  obtain ⟨place, places⟩ := a.exists_places
  have row (q : Fin a.rows) : assemble place
      (b.combinations.grid a.prime a.pivotsOf.length a.rows)
      (kernel.grid a.prime a.dependentOf.length a.rows) q = (a.settledPair q).2 := by
    obtain ⟨x, rfl⟩ := place.surjective q
    rw [assemble_place]
    cases x with
    | inl i =>
      rw [places.kept]
      exact basis.row_eq i
    | inr t =>
      rw [places.dropped]
      exact holds.row_eq t
  refine dualOf_units places.sorted (isUnit_of_unit_triangular ?_ ?_) ?_ ?_
  · intro q
    rw [row]
    exact (record_settledRow _ _ (Or.inl (Nat.le_refl _))).trans (if_pos rfl)
  · intro q l later
    rw [row]
    exact (record_settledRow _ _ (Or.inl (Nat.le_of_lt later))).trans (if_neg (Nat.ne_of_gt later))
  · intro q t
    rw [row, places.record]
  · intro t
    rw [units.row_eq]
    funext l
    simp only [Pi.single_apply, Fin.ext_iff, places.dropped]
    rfl

/-- The dual of a split pairs with its kernel to the identity and with the combinations of its basis
to zero: it is the inverse transpose of the whole change of basis at the eliminated rows. -/
theorem split_dual_pairing (wf : a.WellFormed) (pacer : Pacer) :
    Ends (a.split .everything pacer) (¬ Fits e a.rows a.rows) (pacer.stopRow a.rows ≠ none)
      fun _ d => ∃ kernel dual b, d.kernel = some kernel ∧ d.dual = some dual ∧
        d.basis = some b ∧ kernel.Shaped a.prime kernel.rows a.rows ∧
        dual.Shaped a.prime kernel.rows a.rows ∧ b.combinations.Shaped a.prime d.rank a.rows ∧
        DualOf (a.grid a.prime a.rows a.columns) (b.combinations.grid a.prime d.rank a.rows)
          (kernel.grid a.prime kernel.rows a.rows) (dual.grid a.prime kernel.rows a.rows) := by
  refine (split_ends wf .everything pacer).imp (fun refused => refused.2) id ?_
  intro _ d splits
  obtain ⟨kernel, kernel_present⟩ := Option.isSome_iff_exists.mp splits.kernel_isSome
  obtain ⟨dual, dual_present⟩ := Option.isSome_iff_exists.mp splits.dual_isSome
  obtain ⟨b, basis_present⟩ := Option.isSome_iff_exists.mp splits.basis_isSome
  have holds := splits.kernel kernel kernel_present
  have units := splits.dual dual dual_present
  have basis := splits.basis b basis_present
  have rows := holds.shaped.rows
  refine ⟨kernel, dual, b, kernel_present, dual_present, basis_present, ?_⟩
  rw [rows, splits.rank]
  exact ⟨holds.shaped, units.shaped, basis.shaped, basis.dualOf holds units⟩

end

theorem split_dual_pairing_of_sample :
    let sample := tabulate .batched ⟨5, by decide, by decide⟩ 4 3 fun i j => i * j + i + 1
    Ends (sample.split .everything .standard) (¬ Fits .batched sample.rows sample.rows)
      (Pacer.standard.stopRow sample.rows ≠ none)
      fun _ d => ∃ kernel dual b, d.kernel = some kernel ∧ d.dual = some dual ∧
        d.basis = some b ∧ kernel.Shaped sample.prime kernel.rows sample.rows ∧
        dual.Shaped sample.prime kernel.rows sample.rows ∧
        b.combinations.Shaped sample.prime d.rank sample.rows ∧
        DualOf (sample.grid sample.prime sample.rows sample.columns)
          (b.combinations.grid sample.prime d.rank sample.rows)
          (kernel.grid sample.prime kernel.rows sample.rows)
          (dual.grid sample.prime kernel.rows sample.rows) :=
  split_dual_pairing
    (tabulate_shaped (by decide) (by decide) (by decide) (by decide) _).wellFormed _

/-- The basis of a split keeps the matrix that is left, tells how its rows are combined from initial
ones, and has their pivots. -/
theorem split_basis_record [Storage.Memory] (wf : a.WellFormed) {wanted : Wanted}
    (asked : wanted.basis = true) (pacer : Pacer) :
    Ends (a.split wanted pacer) (¬ Fits e a.rows a.rows) (pacer.stopRow a.rows ≠ none)
      fun state d => ∃ b, d.basis = some b ∧ b.image = state.1 ∧ b.rank = d.rank ∧
        b.image.Shaped a.prime d.rank a.columns ∧ b.combinations.Shaped a.prime d.rank a.rows ∧
        BasisOf (a.grid a.prime a.rows a.columns) (b.image.grid a.prime d.rank a.columns)
          (b.combinations.grid a.prime d.rank a.rows) b.pivots := by
  refine (split_ends wf wanted pacer).imp (fun refused => refused.2) id ?_
  intro state d splits
  obtain ⟨b, present⟩ := Option.isSome_iff_exists.mp (splits.basis_isSome.trans asked)
  have holds := splits.basis b present
  have image := splits.image
  refine ⟨b, present, holds.image, ?_⟩
  rw [PivotBasis.rank, holds.pivots, PivotBasis.length_renumber, ← holds.pivots, splits.rank,
    holds.image]
  exact ⟨rfl, image.shaped, holds.shaped, holds.basisOf image⟩

theorem split_basis_record_of_sample :
    let sample := tabulate .packed .two 4 70 fun i j => i * j + i
    Ends (sample.split .everything .standard) (¬ Fits .packed sample.rows sample.rows)
      (Pacer.standard.stopRow sample.rows ≠ none)
      fun state d => ∃ b, d.basis = some b ∧ b.image = state.1 ∧ b.rank = d.rank ∧
        b.image.Shaped sample.prime d.rank sample.columns ∧
        b.combinations.Shaped sample.prime d.rank sample.rows ∧
        BasisOf (sample.grid sample.prime sample.rows sample.columns)
          (b.image.grid sample.prime d.rank sample.columns)
          (b.combinations.grid sample.prime d.rank sample.rows) b.pivots :=
  split_basis_record
    (tabulate_shaped (by decide) (by decide) (by decide) (by decide) _).wellFormed rfl _

end RowMatrix

end RowReduction
