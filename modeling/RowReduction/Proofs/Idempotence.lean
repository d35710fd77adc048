import Mathlib
import RowReduction.Proofs.Replay
import RowReduction.Proofs.Stacks

/-!
Eliminating again. The rows that an elimination leaves are settled as they are, each with a pivot of
its own, so a second elimination leaves every row where it is and records the identity. After a
quotient the rows vanish moreover in the leading columns of the image, and so in those of any of its
rows: a second quotient by the image, or by rows of it, finds nothing to clear in either pass.
-/
namespace RowReduction

namespace RowMatrix

open EchelonForm

variable {e : Encoding} {p : SmallPrime} {n r : Nat} {a left again : RowMatrix e}
  {b : PivotBasis (RowMatrix e)}

section

variable [Storage.Memory]

/-! Elimination. -/

theorem HoldsImage.again_eq (holds : a.HoldsImage left) (wf : a.WellFormed)
    (holds' : left.HoldsImage again) : again = left :=
  holds.eq_of_survivors holds' wf.shaped (holds.left_shaped wf.shaped)
    (holds.survivors_eq wf.shaped)

/-- No row of an image depends on the others. -/
theorem HoldsImage.dependentOf_eq_nil (holds : a.HoldsImage left) (wf : a.WellFormed)
    (holds' : left.HoldsImage again) : left.dependentOf = [] := by
  have count := length_pivotsOf_add (a := left)
  rw [← holds'.shaped.rows, holds.again_eq wf holds'] at count
  exact List.length_eq_zero_iff.mp (by omega)

/-- Nothing is added to a row of an image, nor to its record. -/
theorem HoldsImage.settledPair_eq (holds : a.HoldsImage left) (wf : a.WellFormed) {k : Nat}
    (inside : k < left.rows) : left.settledPair k = left.recordedRows k := by
  have echelon := isEchelon_survivors (a.vec a.prime a.columns) a.rows
  rw [← holds.map_vec wf.shaped, ← holds.shaped.prime, ← holds.shaped.columns] at echelon
  refine settledRow_of_echelon ?_ inside
  rw [← isEchelon_map (Pair.vector left.prime left.columns left.rows)
    (plain (Residue left.prime) left.columns) (Pair.vector left.prime left.columns left.rows)
    fun _ => rfl, List.map_map]
  exact echelon

/-- The rows of an image are combined from themselves alone. -/
theorem HoldsImage.combinations_eq (holds : a.HoldsImage left) (wf : a.WellFormed)
    (holds' : left.HoldsImage again) (basis : left.HoldsBasis again b) :
    identity left.prime left.rows = pure b.combinations := by
  have count := holds'.shaped.rows
  rw [holds.again_eq wf holds'] at count
  have shaped := basis.shaped
  rw [← count] at shaped
  obtain ⟨unit, built, unit_shaped, units⟩ :=
    identity_ok (e := e) shaped.supported shaped.columns_le shaped.fits
  rw [built, unit_shaped.ext shaped]
  intro k inside
  have place := List.getElem?_eq_getElem (count ▸ inside : k < left.pivotsOf.length)
  have row := row_of_no_dependent (holds.dependentOf_eq_nil wf holds') place
  rw [units k inside, basis.rows k _ place, row, holds.settledPair_eq wf inside]
  rfl

/-- A second elimination of the same rows changes nothing. It has no row to drop, and it records
every row as itself, with the pivot that the first elimination found. -/
theorem split_idempotent (wf : a.WellFormed) (wanted : Wanted) (pacer pacer' : Pacer) :
    Ends (a.split wanted pacer) (wanted ≠ .nothing ∧ ¬ Fits e a.rows a.rows)
      (pacer.stopRow a.rows ≠ none)
      fun state d => d.basis.isSome = wanted.basis ∧
        Ends (state.1.split .everything pacer') (¬ Fits e d.rank d.rank)
          (pacer'.stopRow d.rank ≠ none)
          fun state' d' => state'.1 = state.1 ∧ d'.rank = d.rank ∧
            ∃ kernel dual b, d'.kernel = some kernel ∧ d'.dual = some dual ∧ d'.basis = some b ∧
              kernel.rows = 0 ∧ kernel.columns = d.rank ∧ dual.rows = 0 ∧ dual.columns = d.rank ∧
              b.image = state.1 ∧ identity a.prime d.rank = pure b.combinations ∧
              ∀ recorded ∈ d.basis, b.pivots = recorded.pivots := by
  refine (split_ends wf wanted pacer).imp id id ?_
  intro state d splits
  have holds := splits.image
  have left := holds.left_shaped wf.shaped
  refine ⟨splits.basis_isSome, ?_⟩
  rw [splits.rank, ← holds.shaped.rows]
  refine (split_ends left.wellFormed .everything pacer').imp (fun refused => refused.2) id ?_
  intro state' d' splits'
  have holds' := splits'.image
  have again := holds.again_eq wf holds'
  obtain ⟨kernel, kernel_present⟩ := Option.isSome_iff_exists.mp splits'.kernel_isSome
  obtain ⟨dual, dual_present⟩ := Option.isSome_iff_exists.mp splits'.dual_isSome
  obtain ⟨b, basis_present⟩ := Option.isSome_iff_exists.mp splits'.basis_isSome
  have kernel_shaped := (splits'.kernel kernel kernel_present).shaped
  have dual_shaped := (splits'.dual dual dual_present).shaped
  have basis := splits'.basis b basis_present
  rw [holds.dependentOf_eq_nil wf holds'] at kernel_shaped dual_shaped
  refine ⟨again, ?rank, kernel, dual, b, kernel_present, dual_present, basis_present,
    kernel_shaped.rows, kernel_shaped.columns, dual_shaped.rows, dual_shaped.columns,
    basis.image.trans again, ?combinations, ?pivots⟩
  case rank => rw [splits'.rank, ← holds'.shaped.rows, again]
  case combinations =>
    rw [← left.prime]
    exact holds.combinations_eq wf holds' basis
  case pivots =>
    intro recorded present
    have first := splits.basis recorded present
    have shaped := basis.basis_shaped holds'
    rw [← holds'.shaped.rows, again, left.prime, holds.shaped.rows, left.columns] at shaped
    refine (first.basis_shaped holds).pivots_eq shaped ?_
    intro i _
    rw [first.image, basis.image, again]

end

theorem split_idempotent_of_sample :
    let sample := tabulate .packed .two 4 70 fun i j => i * j + i
    Ends (sample.split .everything .standard)
      (Wanted.everything ≠ .nothing ∧ ¬ Fits .packed sample.rows sample.rows)
      (Pacer.standard.stopRow sample.rows ≠ none)
      fun state d => d.basis.isSome = true ∧
        Ends (state.1.split .everything .standard) (¬ Fits .packed d.rank d.rank)
          (Pacer.standard.stopRow d.rank ≠ none)
          fun state' d' => state'.1 = state.1 ∧ d'.rank = d.rank ∧
            ∃ kernel dual b, d'.kernel = some kernel ∧ d'.dual = some dual ∧ d'.basis = some b ∧
              kernel.rows = 0 ∧ kernel.columns = d.rank ∧ dual.rows = 0 ∧ dual.columns = d.rank ∧
              b.image = state.1 ∧ identity sample.prime d.rank = pure b.combinations ∧
              ∀ recorded ∈ d.basis, b.pivots = recorded.pivots :=
  split_idempotent
    (tabulate_shaped (by decide) (by decide) (by decide) (by decide) _).wellFormed .everything
    .standard .standard

/-! Quotients. -/

section Quotients

variable {m image other reduced : RowMatrix e} {k : Nat}

section

variable [Storage.Memory]

/-- The rows of an image without some of them. -/
structure FewerRows (image other : RowMatrix e) : Prop where
  wellFormed : other.WellFormed
  prime : other.prime = image.prime
  columns : other.columns = image.columns
  toLists : other.toLists.Sublist image.toLists

theorem FewerRows.shaped (fewer : FewerRows image other) (hi : image.Shaped p r n) :
    other.Shaped p other.rows n :=
  ⟨fewer.wellFormed, fewer.prime.trans hi.prime, rfl, fewer.columns.trans hi.columns⟩

theorem FewerRows.exists_row (fewer : FewerRows image other) (hi : image.Shaped p r n) {i : Nat}
    (inside : i < other.rows) : ∃ t : Fin r, image.vec p n t = other.vec p n i := by
  have member : other.vec p n i ∈ (List.range other.rows).map (other.vec p n) :=
    List.mem_map_of_mem (List.mem_range.mpr inside)
  have listed : residues (other.vec p n i) ∈ other.toLists := by
    rw [(fewer.shaped hi).toLists_eq_map]
    exact List.mem_map_of_mem member
  have kept := fewer.toLists.subset listed
  rw [hi.toLists_eq_map, List.mem_map_of_injective residues_injective] at kept
  obtain ⟨t, row, same⟩ := List.mem_map.mp kept
  exact ⟨⟨t, List.mem_range.mp row⟩, same⟩

/-- Rows that vanish in the leading columns of an image are not changed by it. -/
theorem ReducedBy.eq_of_vanish (result : m.ReducedBy image k reduced) (wf : m.WellFormed)
    (zero : ∀ i, i < k → ∀ c, lead (image.vec m.prime m.columns i) = some c →
      ∀ j, j < m.rows → m.vec m.prime m.columns j c = 0) : reduced = m := by
  apply result.shaped.ext wf.shaped
  intro j inside
  rw [result.rows j inside]
  apply reduce_of_zero
  intro v member c leads
  obtain ⟨i, row, rfl⟩ := List.mem_map.mp member
  exact zero i (List.mem_range.mp row) c leads j inside

/-- A quotient of a quotient by the same image, or by rows of it, changes nothing. -/
theorem quotientBasis_again (wf : m.WellFormed) (wf' : image.WellFormed)
    (primes : image.prime = m.prime) (widths : image.columns = m.columns)
    (echelon : EchelonWithZeros (image.grid m.prime image.rows m.columns)) (pacer : Pacer) :
    Ends (m.quotientBasis image pacer) False
      (pacer.stopRow image.rows ≠ none ∨
        (pacer.afterRows image.rows).endPass.stopRow m.rows ≠ none)
      fun state _ => ∀ other, FewerRows image other → ∀ pacer',
        Ends (state.1.quotientBasis other pacer') False
          (pacer'.stopRow other.rows ≠ none ∨
            (pacer'.afterRows other.rows).endPass.stopRow state.1.rows ≠ none)
          fun state' _ => state'.1 = state.1 := by
  have hi : image.Shaped m.prime image.rows m.columns := ⟨wf', primes, rfl, widths⟩
  refine (quotientBasis_ends wf hi pacer).imp id id ?_
  rintro ⟨left, _⟩ - ⟨reduced, result, holds⟩ other fewer pacer'
  obtain ⟨shaped, basis⟩ := result.quotientBasisOf holds echelon
  have ho := fewer.shaped hi
  have zero (i : Nat) (inside : i < other.rows) (c : Fin m.columns)
      (leads : lead (other.vec m.prime m.columns i) = some c) (j : Nat) (row : j < left.rows) :
      left.vec m.prime m.columns j c = 0 := by
    obtain ⟨t, same⟩ := fewer.exists_row hi inside
    rw [← same] at leads
    exact basis.reduced t c leads ⟨j, row⟩
  -- The quotient is taken apart to write its vectors over the prime and the columns of `m`.
  obtain ⟨prime, count, columns, cells⟩ := left
  obtain rfl : prime = m.prime := shaped.prime
  obtain rfl : columns = m.columns := shaped.columns
  refine (quotientBasis_ends shaped.wellFormed ho pacer').imp id id ?_
  rintro ⟨left', _⟩ - ⟨reduced', result', holds'⟩
  obtain rfl := result'.eq_of_vanish shaped.wellFormed zero
  exact holds.again_eq result.shaped.wellFormed holds'

end

theorem quotientBasis_again_of_sample :
    let p : SmallPrime := ⟨5, by decide, by decide⟩
    let m := tabulate .batched p 3 4 fun i j => i * j + 2 * i + 1
    let image := tabulate .batched p 3 4 fun i j =>
      if i = 0 ∧ j = 2 ∨ i = 2 ∧ j = 1 then 3 else 0
    let other := tabulate .batched p 1 4 fun _ j => if j = 1 then 3 else 0
    let empty := tabulate .batched p 0 4 fun _ _ => 0
    EchelonWithZeros (image.grid m.prime image.rows m.columns) ∧
    FewerRows image image ∧ FewerRows image other ∧ FewerRows image empty ∧
    Ends (m.quotientBasis image .standard) False
      (Pacer.standard.stopRow image.rows ≠ none ∨
        (Pacer.standard.afterRows image.rows).endPass.stopRow m.rows ≠ none)
      fun state _ => ∀ other, FewerRows image other → ∀ pacer',
        Ends (state.1.quotientBasis other pacer') False
          (pacer'.stopRow other.rows ≠ none ∨
            (pacer'.afterRows other.rows).endPass.stopRow state.1.rows ≠ none)
          fun state' _ => state'.1 = state.1 := by
  intro p m image other empty
  have hm : m.Shaped p 3 4 :=
    tabulate_shaped (by decide) (by decide) (by decide) (by decide) _
  have hi : image.Shaped p 3 4 :=
    tabulate_shaped (by decide) (by decide) (by decide) (by decide) _
  have ho : other.Shaped p 1 4 :=
    tabulate_shaped (by decide) (by decide) (by decide) (by decide) _
  have hz : empty.Shaped p 0 4 :=
    tabulate_shaped (by decide) (by decide) (by decide) (by decide) _
  have rows := congrArg RowTable.rows
    (table_tabulate (by decide) (by decide) (by decide) (by decide) _ : image.table = _)
  have other_rows := congrArg RowTable.rows
    (table_tabulate (by decide) (by decide) (by decide) (by decide) _ : other.table = _)
  have fewer : FewerRows image other := by
    refine ⟨ho.wellFormed, ho.prime.trans hi.prime.symm, ho.columns.trans hi.columns.symm, ?_⟩
    have lists : other.table.rows.Sublist image.table.rows := by
      rw [rows, other_rows]
      decide
    exact lists
  have echelon : EchelonWithZeros (image.grid m.prime image.rows m.columns) := by
    rw [hm.prime, hi.rows, hm.columns]
    have grid : image.grid p 3 4 = _ :=
      grid_tabulate (by decide) (by decide) (by decide) (by decide) _
    rw [grid]
    unfold EchelonWithZeros
    decide +kernel
  exact ⟨echelon, ⟨hi.wellFormed, rfl, rfl, List.Sublist.refl _⟩, fewer,
    ⟨hz.wellFormed, hz.prime.trans hi.prime.symm, hz.columns.trans hi.columns.symm,
      List.nil_sublist _⟩,
    quotientBasis_again hm.wellFormed hi.wellFormed (hi.prime.trans hm.prime.symm)
      (hi.columns.trans hm.columns.symm) echelon .standard⟩

end Quotients

end RowMatrix

end RowReduction
