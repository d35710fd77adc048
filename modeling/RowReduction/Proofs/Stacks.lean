import Mathlib
import RowReduction.Proofs.Preimages
import RowReduction.Proofs.Survivors
import RowReduction.Proofs.Tables

/-!
Three ways to the same rows. Rows in echelon form are settled as they are, so the elimination of a
stack comes to the rows below them as the first pass of a quotient leaves these, and as they are
left when they are reduced along with an elimination of the upper rows. The three agree entry by
entry, not only in what their rows span.
-/
namespace RowReduction

open EchelonForm

namespace RowMatrix

section

variable [Storage.Memory] {e f : Encoding} {p : SmallPrime} {n r : Nat}
  {a left m image : RowMatrix e}
  {stack : RowMatrix f}

/-- An elimination leaves the settled rows that are not zero, in their order. -/
theorem HoldsImage.toLists_eq (holds : a.HoldsImage left) (h : a.Shaped p r n) : left.toLists =
    ((settled (plain (Residue p) n) (a.vec p n) r).filter (· ≠ 0)).map residues := by
  rw [(holds.left_shaped h).toLists_eq_map, holds.map_vec h, survivors]

/-- A matrix with the rows of the image and below them those of `m`. -/
structure Stacked (image m : RowMatrix e) (stack : RowMatrix f) : Prop where
  wellFormed : stack.WellFormed
  prime : stack.prime = m.prime
  columns : stack.columns = m.columns
  toLists : stack.toLists = image.toLists ++ m.toLists

theorem Stacked.shaped (stacked : Stacked image m stack) :
    stack.Shaped m.prime (image.rows + m.rows) m.columns := by
  have lengths := congrArg List.length stacked.toLists
  simp only [List.length_append, length_toLists] at lengths
  exact ⟨stacked.wellFormed, stacked.prime, lengths, stacked.columns⟩

theorem Stacked.vec_upper (stacked : Stacked image m stack)
    (hi : image.Shaped m.prime r m.columns) {i : Nat} (upper : i < r) :
    stack.vec m.prime m.columns i = image.vec m.prime m.columns i := by
  apply stacked.shaped.vec_of_toLists
  rw [stacked.toLists, hi.toLists_eq, List.getElem?_append_left (by simpa using upper),
    List.getElem?_map, List.getElem?_range upper, Option.map_some]

theorem Stacked.vec_lower (stacked : Stacked image m stack) (wf : m.WellFormed)
    (hi : image.Shaped m.prime r m.columns) {i : Nat} (lower : i < m.rows) :
    stack.vec m.prime m.columns (r + i) = m.vec m.prime m.columns i := by
  apply stacked.shaped.vec_of_toLists
  rw [stacked.toLists, hi.toLists_eq, wf.shaped.toLists_eq,
    List.getElem?_append_right (by simp), List.length_map, List.length_range,
    Nat.add_sub_cancel_left, List.getElem?_map, List.getElem?_range lower, Option.map_some]

/-- The elimination of a stack keeps the upper rows that are not zero as they are, and leaves below
them what the elimination of the reduced lower rows leaves. -/
theorem Stacked.toLists_eq {reduced : RowMatrix e} {result : RowMatrix f}
    (stacked : Stacked image m stack) (wf : m.WellFormed)
    (hi : image.Shaped m.prime image.rows m.columns)
    (echelon : EchelonWithZeros (image.grid m.prime image.rows m.columns))
    (reduces : m.ReducedBy image image.rows reduced) (holds : reduced.HoldsImage left)
    (holds' : stack.HoldsImage result) :
    result.toLists = (image.toLists.filter fun row => row.any (· != 0)) ++ left.toLists := by
  have upper : settled (plain (Residue m.prime) m.columns) (stack.vec m.prime m.columns) image.rows =
      (List.range image.rows).map (image.vec m.prime m.columns) := by
    rw [settled_congr fun j hj => stacked.vec_upper hi hj]
    exact settled_vec echelon
  have lower : settled (plain (Residue m.prime) m.columns)
      (fun i => reduce (plain (Residue m.prime) m.columns)
        ((List.range image.rows).map (image.vec m.prime m.columns))
        (stack.vec m.prime m.columns (image.rows + i))) m.rows =
      settled (plain (Residue m.prime) m.columns) (reduced.vec m.prime m.columns) m.rows := by
    apply settled_congr
    intro j hj
    rw [stacked.vec_lower wf hi hj, reduces.rows j hj]
  rw [holds'.toLists_eq stacked.shaped, holds.toLists_eq reduces.shaped, settled_add, upper, lower,
    List.filter_append, List.map_append, hi.toLists_eq_map, filter_residues]

/-- Rows that are reduced along with the elimination of an image in echelon form are left as the
first pass of a quotient leaves them. -/
theorem Reduces.reducedBy {residues answer : RowMatrix e}
    (reduces : image.Reduces m residues answer m.rows) (primes : image.prime = m.prime)
    (widths : image.columns = m.columns)
    (echelon : EchelonWithZeros (image.grid m.prime image.rows m.columns)) :
    m.ReducedBy image image.rows residues := by
  obtain ⟨prime, rows, columns, cells⟩ := image
  obtain rfl : prime = m.prime := primes
  obtain rfl : columns = m.columns := widths
  refine ⟨reduces.residues_shaped, ?_⟩
  intro j hj
  have residue := congrArg Prod.fst (reduces.pairs j hj)
  rw [remainder_fst, settled_vec echelon] at residue
  exact residue

/-- A quotient by an image in echelon form leaves the rows that the elimination of the image with
the other rows below it leaves after the rows of the image, and the rows that an elimination leaves
of the residues when these are reduced along with the image. -/
theorem quotientBasis_agrees (wf : m.WellFormed) (wf' : image.WellFormed)
    (primes : image.prime = m.prime) (widths : image.columns = m.columns)
    (echelon : EchelonWithZeros (image.grid m.prime image.rows m.columns))
    (stacked : Stacked image m stack) (pacer : Pacer) :
    Ends (m.quotientBasis image pacer) False
      (pacer.stopRow image.rows ≠ none ∨
        (pacer.afterRows image.rows).endPass.stopRow m.rows ≠ none)
      fun state _ =>
        (∀ wanted pacer', Ends (stack.split wanted pacer')
          (wanted ≠ .nothing ∧ ¬ Fits f stack.rows stack.rows) (pacer'.stopRow stack.rows ≠ none)
          fun split _ => split.1.toLists =
            (image.toLists.filter fun row => row.any (· != 0)) ++ state.1.toLists) ∧
        ∀ pacer', Ends (image.preimages m pacer')
          (¬ (Fits e m.rows image.rows ∧ Fits e image.rows image.rows))
          (pacer'.stopRow image.rows ≠ none)
          fun reduced _ => ∀ wanted pacer'', Ends (reduced.residues.split wanted pacer'')
            (wanted ≠ .nothing ∧ ¬ Fits e m.rows m.rows) (pacer''.stopRow m.rows ≠ none)
            fun split _ => split.1 = state.1 := by
  have hi : image.Shaped m.prime image.rows m.columns := ⟨wf', primes, rfl, widths⟩
  have hm : m.Shaped image.prime m.rows image.columns := ⟨wf, primes.symm, rfl, widths.symm⟩
  refine (quotientBasis_ends wf hi pacer).imp id id ?_
  rintro state - ⟨reduced, result, holds⟩
  constructor
  · intro wanted pacer'
    exact (split_ends stacked.wellFormed wanted pacer').imp id id fun split d splits =>
      stacked.toLists_eq wf hi echelon result holds splits.image
  · intro pacer'
    refine (preimages_ends wf' hm pacer').imp id id ?_
    rintro lifted answer ⟨-, reduces⟩ wanted pacer''
    obtain rfl := result.unique (reduces.reducedBy primes widths echelon)
    rw [← result.shaped.rows]
    exact (split_ends result.shaped.wellFormed wanted pacer'').imp id id fun split d splits =>
      splits.image.unique holds

end

theorem quotientBasis_agrees_of_sample :
    let p : SmallPrime := ⟨5, by decide, by decide⟩
    let m := tabulate .batched p 2 4 fun i j => i * j + 1
    let image := tabulate .batched p 3 4 fun i j =>
      if i = 0 ∧ j = 2 ∨ i = 2 ∧ j = 1 then 3 else 0
    let stack := tabulate .generic p 5 4 fun i j =>
      if i < 3 then if i = 0 ∧ j = 2 ∨ i = 2 ∧ j = 1 then 3 else 0 else (i - 3) * j + 1
    EchelonWithZeros (image.grid m.prime image.rows m.columns) ∧ Stacked image m stack ∧
    Ends (m.quotientBasis image .standard) False
      (Pacer.standard.stopRow image.rows ≠ none ∨
        (Pacer.standard.afterRows image.rows).endPass.stopRow m.rows ≠ none)
      fun state _ =>
        (∀ wanted pacer', Ends (stack.split wanted pacer')
          (wanted ≠ .nothing ∧ ¬ Fits .generic stack.rows stack.rows)
          (pacer'.stopRow stack.rows ≠ none)
          fun split _ => split.1.toLists =
            (image.toLists.filter fun row => row.any (· != 0)) ++ state.1.toLists) ∧
        ∀ pacer', Ends (image.preimages m pacer')
          (¬ (Fits .batched m.rows image.rows ∧ Fits .batched image.rows image.rows))
          (pacer'.stopRow image.rows ≠ none)
          fun reduced _ => ∀ wanted pacer'', Ends (reduced.residues.split wanted pacer'')
            (wanted ≠ .nothing ∧ ¬ Fits .batched m.rows m.rows) (pacer''.stopRow m.rows ≠ none)
            fun split _ => split.1 = state.1 := by
  intro p m image stack
  have hm : m.Shaped p 2 4 :=
    tabulate_shaped (by decide) (by decide) (by decide) (by decide) _
  have hi : image.Shaped p 3 4 :=
    tabulate_shaped (by decide) (by decide) (by decide) (by decide) _
  have hs : stack.Shaped p 5 4 :=
    tabulate_shaped (by decide) (by decide) (by decide) (by decide) _
  have upper := congrArg RowTable.rows
    (table_tabulate (by decide) (by decide) (by decide) (by decide) _ : image.table = _)
  have lower := congrArg RowTable.rows
    (table_tabulate (by decide) (by decide) (by decide) (by decide) _ : m.table = _)
  have whole := congrArg RowTable.rows
    (table_tabulate (by decide) (by decide) (by decide) (by decide) _ : stack.table = _)
  have stacked : Stacked image m stack := by
    refine ⟨hs.wellFormed, hs.prime.trans hm.prime.symm, hs.columns.trans hm.columns.symm, ?_⟩
    have lists : stack.table.rows = image.table.rows ++ m.table.rows := by
      rw [upper, lower, whole]
      decide
    exact lists
  have echelon : EchelonWithZeros (image.grid m.prime image.rows m.columns) := by
    rw [hm.prime, hi.rows, hm.columns]
    have grid : image.grid p 3 4 = _ :=
      grid_tabulate (by decide) (by decide) (by decide) (by decide) _
    rw [grid]
    unfold EchelonWithZeros
    decide +kernel
  exact ⟨echelon, stacked, quotientBasis_agrees hm.wellFormed hi.wellFormed
    (hi.prime.trans hm.prime.symm) (hi.columns.trans hm.columns.symm) echelon stacked .standard⟩

end RowMatrix

end RowReduction
