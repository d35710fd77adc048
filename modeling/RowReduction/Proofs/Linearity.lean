import Mathlib
import RowReduction.Proofs.Replay

/-!
Reducing rows is linear. Which rows are added to a row depends on its entries, but clearing a column
is linear all the same, and a step that is skipped would have added zero. So a matrix, or the basis
of its split, stands for two linear maps: one gives the residue of a row and the other the
combination that is taken off, whatever rows are reduced along with it. Residues are fixed, and
nothing is taken off them.
-/
namespace RowReduction

namespace EchelonForm

variable {K : Type*} [Field K] [DecidableEq K] {m n : Nat} {vectors : Nat → Fin n → K}

theorem remainder_add (x y : Fin n → K) :
    remainder vectors m (x + y) = remainder vectors m x + remainder vectors m y := by
  have pair : ((x + y, 0) : (Fin n → K) × (Fin m → K)) = (x, 0) + (y, 0) := by simp
  simp only [remainder, pair, map_add]

theorem remainder_smul (c : K) (x : Fin n → K) :
    remainder vectors m (c • x) = c • remainder vectors m x := by
  have pair : ((c • x, 0) : (Fin n → K) × (Fin m → K)) = c • (x, 0) := by simp
  simp only [remainder, pair, map_smul]

/-- Nothing is added to what is left of a vector. -/
theorem remainder_remainder (x : Fin n → K) :
    remainder vectors m (remainder vectors m x).1 = ((remainder vectors m x).1, 0) := by
  apply reduce_of_zero
  intro r member c leads
  obtain ⟨q, inside, rfl⟩ := mem_settled.mp member
  exact remainder_column inside leads x

/-- The residue of a vector modulo the first `m` rows. -/
def residueMap (vectors : Nat → Fin n → K) (m : Nat) : (Fin n → K) →ₗ[K] Fin n → K where
  toFun x := (remainder vectors m x).1
  map_add' x y := by rw [remainder_add, Prod.fst_add]
  map_smul' c x := by rw [remainder_smul, Prod.smul_fst, RingHom.id_apply]

/-- The combination of the first `m` rows that is taken off a vector. -/
def resultMap (vectors : Nat → Fin n → K) (m : Nat) : (Fin n → K) →ₗ[K] Fin m → K where
  toFun x := -(remainder vectors m x).2
  map_add' x y := by rw [remainder_add, Prod.snd_add, neg_add]
  map_smul' c x := by rw [remainder_smul, Prod.smul_snd, RingHom.id_apply, smul_neg]

theorem residueMap_residueMap (x : Fin n → K) :
    residueMap vectors m (residueMap vectors m x) = residueMap vectors m x :=
  (Prod.ext_iff.mp (remainder_remainder x)).1

theorem resultMap_residueMap (x : Fin n → K) :
    resultMap vectors m (residueMap vectors m x) = 0 :=
  neg_eq_zero.mpr (Prod.ext_iff.mp (remainder_remainder x)).2

end EchelonForm

namespace RowMatrix

open EchelonForm

section

variable [Storage.Memory] {e : Encoding} {a l residues answer : RowMatrix e} {r : Nat}

section Rowwise

variable {σ : Type} {p : SmallPrime} {m n : Nat}
  {lift : RowMatrix e → Pacer → Checked (Outcome σ ReductionError (RowMatrix e))}
  {left : σ → RowMatrix e} {tooLarge : Nat → Prop} {stopped : Pacer → Prop}
  {residue : (Fin n → Residue p) →ₗ[Residue p] Fin n → Residue p}
  {result : (Fin n → Residue p) →ₗ[Residue p] Fin m → Residue p}

/-- The rows of `l`, each taken to its residue by one map and to its result by another. -/
structure MapsRows (residue : (Fin n → Residue p) →ₗ[Residue p] Fin n → Residue p)
    (result : (Fin n → Residue p) →ₗ[Residue p] Fin m → Residue p) (r : Nat)
    (l residues answer : RowMatrix e) : Prop where
  residues_shaped : residues.Shaped p r n
  answer_shaped : answer.Shaped p r m
  residues_row : ∀ i, i < r → residues.vec p n i = residue (l.vec p n i)
  answer_row : ∀ i, i < r → answer.vec p m i = result (l.vec p n i)

/-- A call that reduces rows one by one, by a linear map for the residues and another one for the
results. Called again with the residues it leaves them and answers with zeros. -/
def ReducesRowwise
    (lift : RowMatrix e → Pacer → Checked (Outcome σ ReductionError (RowMatrix e)))
    (left : σ → RowMatrix e) (tooLarge : Nat → Prop) (stopped : Pacer → Prop)
    (residue : (Fin n → Residue p) →ₗ[Residue p] Fin n → Residue p)
    (result : (Fin n → Residue p) →ₗ[Residue p] Fin m → Residue p) : Prop :=
  ∀ l r, l.Shaped p r n → ∀ pacer, Ends (lift l pacer) (tooLarge r) (stopped pacer)
    fun state answer => MapsRows residue result r l (left state) answer ∧
      ∀ pacer', Ends (lift (left state) pacer') (tooLarge r) (stopped pacer')
        fun state' answer' => left state' = left state ∧ new p r m = pure answer'

theorem reducesRowwise_of_maps
    (maps : ∀ l r, l.Shaped p r n → ∀ pacer, Ends (lift l pacer) (tooLarge r) (stopped pacer)
      fun state answer => MapsRows residue result r l (left state) answer)
    (again : ∀ x, residue (residue x) = residue x) (nothing : ∀ x, result (residue x) = 0) :
    ReducesRowwise lift left tooLarge stopped residue result := by
  intro l r hl pacer
  refine (maps l r hl pacer).imp id id ?_
  intro state answer first
  refine ⟨first, ?_⟩
  intro pacer'
  refine (maps (left state) r first.residues_shaped pacer').imp id id ?_
  intro state' answer' second
  constructor
  · apply second.residues_shaped.ext first.residues_shaped
    intro i inside
    rw [second.residues_row i inside, first.residues_row i inside, again]
  · have shaped := second.answer_shaped
    have blank := blank_shaped shaped.supported shaped.rows_le shaped.columns_le shaped.fits
    rw [new_of_fits shaped.supported shaped.fits, blank.ext shaped]
    intro i inside
    rw [vec_blank, second.answer_row i inside, first.residues_row i inside, nothing]

end Rowwise

theorem Reduces.mapsRows (reduces : a.Reduces l residues answer r) :
    MapsRows (residueMap (a.vec a.prime a.columns) a.rows)
      (resultMap (a.vec a.prime a.columns) a.rows) r l residues answer where
  residues_shaped := reduces.residues_shaped
  answer_shaped := reduces.answer_shaped
  residues_row i inside := congrArg Prod.fst (reduces.pairs i inside)
  answer_row i inside := neg_eq_iff_eq_neg.mp (congrArg Prod.snd (reduces.pairs i inside))

/-- Rows are reduced by a matrix, and by every basis of its split, with the same two linear maps. -/
theorem preimages_linear (wf : a.WellFormed) :
    ∃ (residue : (Fin a.columns → Residue a.prime) →ₗ[Residue a.prime]
        Fin a.columns → Residue a.prime)
      (result : (Fin a.columns → Residue a.prime) →ₗ[Residue a.prime] Fin a.rows → Residue a.prime),
      ReducesRowwise a.preimages (·.residues)
        (fun r => ¬ (Fits e r a.rows ∧ Fits e a.rows a.rows))
        (fun pacer => pacer.stopRow a.rows ≠ none) residue result ∧
      ∀ wanted pacer, Ends (a.split wanted pacer) (wanted ≠ .nothing ∧ ¬ Fits e a.rows a.rows)
        (pacer.stopRow a.rows ≠ none)
        fun _ d => d.basis.isSome = wanted.basis ∧ ∀ b ∈ d.basis,
          ReducesRowwise b.preimages (·.1) (fun r => ¬ Fits e r a.rows)
            (fun pacer => pacer.stopRow b.rank ≠ none) residue result := by
  refine ⟨residueMap (a.vec a.prime a.columns) a.rows,
    resultMap (a.vec a.prime a.columns) a.rows, ?_, ?_⟩
  · apply reducesRowwise_of_maps ?_ residueMap_residueMap resultMap_residueMap
    intro l r hl pacer
    refine (preimages_ends wf hl pacer).imp id id ?_
    rintro state answer ⟨-, reduces⟩
    exact reduces.mapsRows
  · intro wanted pacer
    refine (split_ends wf wanted pacer).imp id id ?_
    intro _ d splits
    refine ⟨splits.basis_isSome, ?_⟩
    intro b present
    have holds := splits.basis b present
    have shaped := holds.basis_shaped splits.image
    apply reducesRowwise_of_maps ?_ residueMap_residueMap resultMap_residueMap
    intro l r hl pacer'
    rw [PivotBasis.rank, shaped.length]
    refine (PivotBasis.preimages_ends shaped hl pacer').imp id id ?_
    intro state answer replays
    exact (holds.reduces splits.image replays).mapsRows

end

theorem preimages_linear_of_sample :
    let a := tabulate .batched ⟨5, by decide, by decide⟩ 3 2 fun i j => i + 2 * j
    ∃ (residue : (Fin a.columns → Residue a.prime) →ₗ[Residue a.prime]
        Fin a.columns → Residue a.prime)
      (result : (Fin a.columns → Residue a.prime) →ₗ[Residue a.prime] Fin a.rows → Residue a.prime),
      ReducesRowwise a.preimages (·.residues)
        (fun r => ¬ (Fits .batched r a.rows ∧ Fits .batched a.rows a.rows))
        (fun pacer => pacer.stopRow a.rows ≠ none) residue result ∧
      ∀ wanted pacer, Ends (a.split wanted pacer)
        (wanted ≠ .nothing ∧ ¬ Fits .batched a.rows a.rows) (pacer.stopRow a.rows ≠ none)
        fun _ d => d.basis.isSome = wanted.basis ∧ ∀ b ∈ d.basis,
          ReducesRowwise b.preimages (·.1) (fun r => ¬ Fits .batched r a.rows)
            (fun pacer => pacer.stopRow b.rank ≠ none) residue result :=
  preimages_linear (tabulate_shaped (by decide) (by decide) (by decide) (by decide) _).wellFormed

end RowMatrix

end RowReduction
