import Mathlib
import RowReduction.Proofs.Splitting

/-!
The kernel of a split. The records of the dependent rows are a basis of all linear relations
between the rows of the matrix: a relation vanishes in every leading column, so in the span of the
settled rows it is a combination of those that became zero. Each record ends in a 1 at its own
row.
-/
namespace RowReduction

open EchelonForm

section Relations

variable {K : Type*} [Field K] [DecidableEq K] {n m : Nat} {vectors : Nat → Fin n → K}

/-- Every row ends in a 1, later rows end later, and where a row ends the others are zero. -/
def LastUnits {r : Nat} (M : Matrix (Fin r) (Fin m) K) : Prop :=
  ∃ last : Fin r → Fin m, StrictMono last ∧ ∀ t, M t (last t) = 1 ∧
    (∀ l, last t < l → M t l = 0) ∧ ∀ s, s ≠ t → M s (last t) = 0

def relations (vectors : Nat → Fin n → K) (m : Nat) : Set (Fin m → K) :=
  {y | ∃ q, q < m ∧ (settledRow (LinearMap.fst K _ _) (recorded vectors m) q).1 = 0 ∧
    (settledRow (LinearMap.fst K _ _) (recorded vectors m) q).2 = y}

omit [DecidableEq K] in
theorem sum_recorded (vectors : Nat → Fin n → K) (x : Fin m → K) :
    ∑ j : Fin m, x j • recorded vectors m j = (∑ j : Fin m, x j • vectors j, x) := by
  apply Prod.ext
  · simp [Prod.fst_sum, recorded]
  · funext l
    simp [Prod.snd_sum, recorded, Fin.val_inj]

/-- The records of the dependent rows span all relations. -/
theorem mem_span_relations {x : Fin m → K} :
    x ∈ Submodule.span K (relations vectors m) ↔ ∑ j : Fin m, x j • vectors j = 0 := by
  constructor
  · intro member
    have inside : Submodule.span K (relations vectors m) ≤
        LinearMap.ker (Fintype.linearCombination K fun j : Fin m => vectors j) := by
      rw [Submodule.span_le]
      rintro _ ⟨q, hq, zero, rfl⟩
      have member : settledRow (LinearMap.fst K _ _) (recorded vectors m) q ∈
          EchelonForm.honest vectors m := settledRow_honest hq
      have honest := mem_honest.mp member
      rw [zero] at honest
      exact honest.symm
    exact inside member
  · intro relation
    have pair := sum_recorded vectors x
    rw [relation] at pair
    have member : ((0, x) : (Fin n → K) × (Fin m → K)) ∈ Submodule.span K
        {r | r ∈ settled (LinearMap.fst K _ _) (recorded vectors m) m} := by
      rw [span_settled, ← pair]
      apply Submodule.sum_mem
      intro j _
      exact Submodule.smul_mem _ _ (Submodule.subset_span ⟨j, j.isLt, rfl⟩)
    -- The vector of this pair vanishes in every leading column, so only zero rows take part.
    have zero_rows := mem_span_zero_rows (isEchelon_settled m) member fun _ _ _ _ => rfl
    have image := Submodule.mem_map_of_mem (f := LinearMap.snd K (Fin n → K) (Fin m → K)) zero_rows
    rw [Submodule.map_span] at image
    refine Submodule.span_mono ?_ image
    rintro _ ⟨r, ⟨settled, zero⟩, rfl⟩
    obtain ⟨q, hq, rfl⟩ := mem_settled.mp settled
    exact ⟨q, hq, zero, rfl⟩

omit [DecidableEq K] in
theorem LastUnits.independent {r : Nat} {M : Matrix (Fin r) (Fin m) K} (normal : LastUnits M) :
    LinearIndependent K M.row := by
  obtain ⟨last, -, rows⟩ := normal
  have nonzero (t : Fin r) : M.row t (last t) ≠ 0 := by
    rw [Matrix.row, (rows t).1]
    exact one_ne_zero
  exact independent_of_columns nonzero fun t s later => (rows t).2.2 s (ne_of_gt later)

end Relations

namespace RowMatrix

section

variable [Storage.Memory] {e : Encoding} {a kernel : RowMatrix e}

theorem HoldsKernel.row_eq (holds : a.HoldsKernel kernel) (t : Fin a.dependentOf.length) :
    (kernel.grid a.prime a.dependentOf.length a.rows).row t =
      (a.settledPair a.dependentOf[t.val]).2 :=
  holds.rows t _ (List.getElem?_eq_getElem t.isLt)

theorem HoldsKernel.lastUnits (holds : a.HoldsKernel kernel) :
    LastUnits (kernel.grid a.prime a.dependentOf.length a.rows) := by
  have dependent (t : Fin a.dependentOf.length) :
      a.dependentOf[t.val] < a.rows ∧ (a.settledPair a.dependentOf[t.val]).1 = 0 :=
    mem_dependentBefore.mp (List.getElem_mem t.isLt)
  have increasing := List.pairwise_iff_getElem.mp
    (dependentBefore_pairwise a.recordedRows a.rows)
  refine ⟨fun t => ⟨a.dependentOf[t.val], (dependent t).1⟩, ?_, ?_⟩
  · intro t s earlier
    exact increasing t s t.isLt s.isLt earlier
  · intro t
    have entry (s : Fin a.dependentOf.length) (l : Fin a.rows)
        (place : a.dependentOf[s.val] ≤ l.val ∨ (a.settledPair l).1 = 0) :
        kernel.grid a.prime a.dependentOf.length a.rows s l =
          if l.val = a.dependentOf[s.val] then 1 else 0 :=
      (congrFun (holds.row_eq s) l).trans (record_settledRow _ l place)
    refine ⟨?_, ?_, ?_⟩
    · rw [entry t _ (Or.inl (Nat.le_refl _)), if_pos rfl]
    · intro l later
      have later : a.dependentOf[t.val] < l.val := later
      rw [entry t l (Or.inl (Nat.le_of_lt later)), if_neg (Nat.ne_of_gt later)]
    · intro s apart
      rw [entry s _ (Or.inr (dependent t).2), if_neg]
      intro same
      rcases lt_or_gt_of_ne apart with before | after
      · exact Nat.ne_of_gt (increasing s t s.isLt t.isLt before) same
      · exact Nat.ne_of_lt (increasing t s t.isLt s.isLt after) same

theorem HoldsKernel.span_eq (holds : a.HoldsKernel kernel) :
    Submodule.span (Residue a.prime)
        (Set.range (kernel.grid a.prime a.dependentOf.length a.rows).row) =
      LinearMap.ker (a.grid a.prime a.rows a.columns).vecMulLinear := by
  have rows : Set.range (kernel.grid a.prime a.dependentOf.length a.rows).row =
      relations (a.vec a.prime a.columns) a.rows := by
    ext y
    constructor
    · rintro ⟨t, rfl⟩
      obtain ⟨inside, zero⟩ := mem_dependentBefore.mp (List.getElem_mem t.isLt)
      exact ⟨_, inside, zero, (holds.row_eq t).symm⟩
    · rintro ⟨q, inside, zero, rfl⟩
      obtain ⟨t, ht, rfl⟩ := List.mem_iff_getElem.mp (mem_dependentBefore.mpr ⟨inside, zero⟩)
      exact ⟨⟨t, ht⟩, holds.row_eq ⟨t, ht⟩⟩
  ext x
  rw [rows, mem_span_relations, LinearMap.mem_ker, Matrix.vecMulLinear_apply,
    Matrix.vecMul_eq_sum]
  rfl

/-- The kernel of a split is a basis of the left null space of the matrix, in normal form. -/
theorem split_kernel_basis (wf : a.WellFormed) {wanted : Wanted} (asked : wanted.kernel = true)
    (pacer : Pacer) :
    Ends (a.split wanted pacer) (¬ Fits e a.rows a.rows) (pacer.stopRow a.rows ≠ none)
      fun state d => ∃ kernel, d.kernel = some kernel ∧
        kernel.Shaped a.prime kernel.rows a.rows ∧
        LinearIndependent (Residue a.prime) (kernel.grid a.prime kernel.rows a.rows).row ∧
        Submodule.span (Residue a.prime)
            (Set.range (kernel.grid a.prime kernel.rows a.rows).row) =
          LinearMap.ker (a.grid a.prime a.rows a.columns).vecMulLinear ∧
        kernel.rows + state.1.rows = a.rows ∧ d.rank = state.1.rows ∧
        LastUnits (kernel.grid a.prime kernel.rows a.rows) := by
  refine (split_ends wf wanted pacer).imp (fun refused => refused.2) id ?_
  intro state d splits
  obtain ⟨kernel, present⟩ :=
    Option.isSome_iff_exists.mp (splits.kernel_isSome.trans asked)
  have holds := splits.kernel kernel present
  have normal := holds.lastUnits
  have spans := holds.span_eq
  rw [← holds.shaped.rows] at normal spans
  refine ⟨kernel, present, ?_, normal.independent, spans, ?_, ?_, normal⟩
  · rw [holds.shaped.rows]
    exact holds.shaped
  · rw [holds.shaped.rows, splits.image.shaped.rows, Nat.add_comm]
    exact length_pivotsOf_add
  · rw [splits.rank, splits.image.shaped.rows]

end

theorem split_kernel_basis_of_sample :
    let sample := tabulate .generic ⟨3, by decide, by decide⟩ 3 2 fun i j => i + j
    Ends (sample.split .onlyKernel .standard) (¬ Fits .generic sample.rows sample.rows)
      (Pacer.standard.stopRow sample.rows ≠ none)
      fun state d => ∃ kernel, d.kernel = some kernel ∧
        kernel.Shaped sample.prime kernel.rows sample.rows ∧
        LinearIndependent (Residue sample.prime)
          (kernel.grid sample.prime kernel.rows sample.rows).row ∧
        Submodule.span (Residue sample.prime)
            (Set.range (kernel.grid sample.prime kernel.rows sample.rows).row) =
          LinearMap.ker (sample.grid sample.prime sample.rows sample.columns).vecMulLinear ∧
        kernel.rows + state.1.rows = sample.rows ∧ d.rank = state.1.rows ∧
        LastUnits (kernel.grid sample.prime kernel.rows sample.rows) :=
  split_kernel_basis
    (tabulate_shaped (by decide) (by decide) (by decide) (by decide) _).wellFormed rfl _

end RowMatrix

end RowReduction
