import Mathlib
import RowReduction.Proofs.Image
import RowReduction.Proofs.Reduction
import RowReduction.Proofs.Remainder

/-!
Preimages that are found along with an elimination. Every row is left with its remainder modulo the
row space, and the answer is minus the record of that remainder: it tells how the rest of the row is
combined from initial rows. The elimination itself is not changed by the rows that follow it.
-/
namespace RowReduction.RowMatrix

open EchelonForm

section

variable [Storage.Memory] {e : Encoding} {a l left residues answer : RowMatrix e} {r : Nat}

/-- The residues and combinations of the rows of `l` modulo the rows of `a`. -/
structure Reduces (a l residues answer : RowMatrix e) (r : Nat) : Prop where
  residues_shaped : residues.Shaped a.prime r a.columns
  answer_shaped : answer.Shaped a.prime r a.rows
  pairs : ∀ j, j < r →
    (residues.vec a.prime a.columns j, -answer.vec a.prime a.rows j) =
      remainder (a.vec a.prime a.columns) a.rows (l.vec a.prime a.columns j)

/-- The same, when only the first `i` rows of `a` have been visited. -/
structure ReducesBefore (a l residues subtracted : RowMatrix e) (r i : Nat) : Prop where
  residues_shaped : residues.Shaped a.prime r a.columns
  subtracted_shaped : subtracted.Shaped a.prime r a.rows
  pairs : ∀ j, j < r →
    (residues.vec a.prime a.columns j, -subtracted.vec a.prime a.rows j) =
      reduce (Pair.vector a.prime a.columns a.rows)
        (settled (Pair.vector a.prime a.columns a.rows) a.recordedRows i)
        (l.vec a.prime a.columns j, 0)

section Runs

variable {pacer : Pacer}

theorem follower_ok (wf : a.WellFormed) (hl : l.Shaped a.prime r a.columns)
    (fits : Fits e r a.rows) (square : Fits e a.rows a.rows) :
    ∃ unit : RowMatrix e, unit.IsUnit a.prime a.rows ∧
      (⟨a, some unit, none⟩ : Workspace e).Shaped a.prime a.rows a.columns ∧
      Reduction.Follows l ⟨a, some unit, none⟩ a.prime r a.columns a.rows 0
        ⟨l, blank e a.prime r a.rows⟩ ∧
      ∀ pacer, a.preimages l pacer = (do
        let ⟨s, eliminated⟩ ← (Elimination.start ⟨a, some unit, none⟩
          ⟨l, blank e a.prime r a.rows⟩ pacer).run Reduction.follow
        return ⟨⟨s.workspace.matrix, s.follower.residues, s.pacer⟩,
          eliminated.map fun () => s.follower.subtracted⟩) := by
  obtain ⟨unit, built, shaped, rows⟩ := identity_ok (e := e) wf.supported wf.rows_le square
  refine ⟨unit, ⟨shaped, rows⟩, ⟨wf.shaped, ?_, by simp⟩,
    Reduction.follows_start hl wf.supported wf.rows_le fits, ?_⟩
  · intro u hu
    rw [← Option.mem_some.mp hu]
    exact shaped
  · intro pacer
    simp only [preimages, wf.shaped.checkWidths_ok hl, hl.prime, hl.rows,
      new_of_fits wf.supported fits, built]
    rfl

/-- With the identity as change of basis, the rows that follow are reduced by the rows with their
records. -/
theorem reducesBefore_of_follows {unit : RowMatrix e} (isUnit : unit.IsUnit a.prime a.rows)
    {i : Nat} (inside : i ≤ a.rows) {s : Reduction e}
    (follows : Reduction.Follows l ⟨a, some unit, none⟩ a.prime r a.columns a.rows i s) :
    a.ReducesBefore l s.residues s.subtracted r i := by
  refine ⟨follows.shaped.residues, follows.shaped.subtracted, ?_⟩
  intro j hj
  have rows : settled (Pair.vector a.prime a.columns a.rows)
      ((⟨a, some unit, none⟩ : Workspace e).pair a.prime a.columns a.rows) i =
        settled (Pair.vector a.prime a.columns a.rows) a.recordedRows i :=
    settled_congr fun q hq => Prod.ext rfl (isUnit.rows q (Nat.lt_of_lt_of_le hq inside))
  rw [← rows]
  exact follows.pairs j hj

/-- When all rows have been visited, the rows that follow are left with their remainders. -/
theorem reducesBefore_rows :
    a.ReducesBefore l residues answer r a.rows ↔ a.Reduces l residues answer r :=
  ⟨fun h => ⟨h.residues_shaped, h.subtracted_shaped, h.pairs⟩,
    fun h => ⟨h.residues_shaped, h.answer_shaped, h.pairs⟩⟩

theorem preimages_ok (wf : a.WellFormed) (hl : l.Shaped a.prime r a.columns)
    (fits : Fits e r a.rows) (square : Fits e a.rows a.rows)
    (uninterrupted : pacer.stopRow a.rows = none) :
    ∃ left residues answer,
      a.preimages l pacer = .ok ⟨⟨left, residues, pacer.afterRows a.rows⟩, .ok answer⟩ ∧
      a.HoldsImage left ∧ a.Reduces l residues answer r := by
  obtain ⟨unit, isUnit, shaped, related, call⟩ := follower_ok wf hl fits square
  obtain ⟨s, run, finished, follows, pacing⟩ := Elimination.run_complete shaped
    (Reduction.follow_keeps l rfl) _ related pacer uninterrupted
  refine ⟨s.workspace.matrix, s.follower.residues, s.follower.subtracted, ?_,
    holdsImage_of_finished finished,
    reducesBefore_rows.mp (reducesBefore_of_follows isUnit (Nat.le_refl a.rows) follows)⟩
  rw [call, run, ← pacing]
  rfl

theorem preimages_interrupted (wf : a.WellFormed) (hl : l.Shaped a.prime r a.columns)
    (fits : Fits e r a.rows) (square : Fits e a.rows a.rows) {row : Nat}
    (stopped : pacer.stopRow a.rows = some row) :
    ∃ left residues subtracted, a.preimages l pacer =
        .ok ⟨⟨left, residues, pacer.afterRows a.rows⟩, .error .interrupted⟩ ∧
      a.HoldsVisited row left ∧ a.ReducesBefore l residues subtracted r row := by
  obtain ⟨unit, isUnit, shaped, related, call⟩ := follower_ok wf hl fits square
  obtain ⟨s, run, agrees, follows, pacing⟩ := Elimination.run_interrupted shaped
    (Reduction.follow_keeps l rfl) _ related pacer stopped
  have inside := (pacer.walk_range a.rows a.rows 0 stopped).2
  refine ⟨s.workspace.matrix, s.follower.residues, s.follower.subtracted, ?_,
    holdsVisited_of_agrees agrees, reducesBefore_of_follows isUnit (by omega) follows⟩
  rw [call, run, ← pacing]
  rfl

theorem preimages_of_widths_ne (primes : a.prime = l.prime) (apart : a.columns ≠ l.columns)
    (pacer : Pacer) : a.preimages l pacer =
      .ok ⟨⟨a, l, pacer⟩, .error (.storage (.widthMismatch a.columns l.columns))⟩ := by
  have widths : checkWidths a.columns l.columns = .error (.widthMismatch a.columns l.columns) :=
    if_neg apart
  simp only [preimages, primes, decide_true, require, if_true, widths]
  rfl

theorem preimages_refused (wf : a.WellFormed) (hl : l.Shaped a.prime r a.columns)
    (large : ¬ (Fits e r a.rows ∧ Fits e a.rows a.rows)) (pacer : Pacer) :
    ∃ cells bytes, a.preimages l pacer =
      .ok ⟨⟨a, l, pacer⟩, .error (.storage (.outOfMemory cells bytes))⟩ := by
  have widths := wf.shaped.checkWidths_ok hl
  by_cases fits : Fits e r a.rows
  · obtain ⟨cells, bytes, refused⟩ :=
      new_of_not_fits (e := e) wf.supported fun square => large ⟨fits, square⟩
    refine ⟨cells, bytes, ?_⟩
    simp only [preimages, widths, hl.prime, hl.rows, new_of_fits wf.supported fits, identity,
      refused]
    rfl
  · obtain ⟨cells, bytes, refused⟩ := new_of_not_fits (e := e) wf.supported fits
    refine ⟨cells, bytes, ?_⟩
    simp only [preimages, widths, hl.prime, hl.rows, refused]
    rfl

theorem preimages_ends (wf : a.WellFormed) (hl : l.Shaped a.prime r a.columns) (pacer : Pacer) :
    Ends (a.preimages l pacer) (¬ (Fits e r a.rows ∧ Fits e a.rows a.rows))
      (pacer.stopRow a.rows ≠ none)
      fun state answer => a.HoldsImage state.matrix ∧ a.Reduces l state.residues answer r := by
  apply ends_of_cases
  · intro large
    obtain ⟨_, _, call⟩ := preimages_refused wf hl large pacer
    exact ⟨_, _, call⟩
  · intro enough row stop
    have fits := not_not.mp enough
    obtain ⟨left, residues, -, call, -⟩ := preimages_interrupted wf hl fits.1 fits.2 stop
    exact ⟨_, call⟩
  · intro enough stop
    have fits := not_not.mp enough
    obtain ⟨left, residues, answer, call, holds⟩ := preimages_ok wf hl fits.1 fits.2 stop
    exact ⟨_, _, call, holds⟩

end Runs

section Decompositions

variable {K : Type*} [Field K] [DecidableEq K] {m n k : Nat}

/-- The rows of `L` are combinations `R` of the rows of `A` plus residues. The residues vanish in
the leading columns of the image and are zero only in the row space, and rows of `A` that depend
on earlier ones are not used. -/
structure Decomposes (A : Matrix (Fin m) (Fin n) K) (image : Matrix (Fin k) (Fin n) K)
    (L : Matrix (Fin r) (Fin n) K) (R : Matrix (Fin r) (Fin m) K)
    (residue : Matrix (Fin r) (Fin n) K) : Prop where
  sum : L = R * A + residue
  reduced : ∀ t c, lead (image.row t) = some c → ∀ i, residue i c = 0
  residue_eq_zero : ∀ i, residue.row i = 0 ↔ L.row i ∈ Submodule.span K (Set.range A.row)
  dependent : ∀ q, A.row q ∈ Submodule.span K (A.row '' Set.Iio q) → ∀ i, R i q = 0

omit [Storage.Memory] in
theorem range_row (p : SmallPrime) (m n : Nat) :
    Set.range (a.grid p m n).row = a.vec p n '' Set.Iio m := by
  ext v
  constructor
  · rintro ⟨i, rfl⟩
    exact ⟨i, i.isLt, rfl⟩
  · rintro ⟨i, hi, rfl⟩
    exact ⟨⟨i, hi⟩, rfl⟩

omit [Storage.Memory] in
theorem image_row_Iio (p : SmallPrime) (m n : Nat) (q : Fin m) :
    (a.grid p m n).row '' Set.Iio q = a.vec p n '' Set.Iio q.val := by
  ext v
  constructor
  · rintro ⟨i, hi, rfl⟩
    exact ⟨i, hi, rfl⟩
  · rintro ⟨i, hi, rfl⟩
    exact ⟨⟨i, Nat.lt_trans hi q.isLt⟩, hi, rfl⟩

theorem Reduces.decomposes (reduces : a.Reduces l residues answer r) (holds : a.HoldsImage left) :
    Decomposes (a.grid a.prime a.rows a.columns)
      (left.grid a.prime a.pivotsOf.length a.columns) (l.grid a.prime r a.columns)
      (answer.grid a.prime r a.rows) (residues.grid a.prime r a.columns) where
  sum := by
    funext i
    have residue := congrArg Prod.fst (reduces.pairs i i.isLt)
    have record := congrArg Prod.snd (reduces.pairs i i.isLt)
    have honest := remainder_honest a.rows (a.vec a.prime a.columns) (l.vec a.prime a.columns i)
    rw [← residue, ← record] at honest
    simp only [Pi.neg_apply, neg_smul, Finset.sum_neg_distrib] at honest
    rw [← sub_eq_add_neg, eq_sub_iff_add_eq] at honest
    change l.vec a.prime a.columns i =
      (answer.grid a.prime r a.rows * a.grid a.prime a.rows a.columns) i +
        residues.vec a.prime a.columns i
    rw [← honest, add_comm, Matrix.mul_apply_eq_vecMul, Matrix.vecMul_eq_sum]
    rfl
  reduced := by
    intro t c leads i
    have residue := congrFun (congrArg Prod.fst (reduces.pairs i i.isLt)) c
    rw [holds.row_eq t] at leads
    exact residue.trans (remainder_column (pivotsOf_row_lt (List.getElem_mem t.isLt)) leads _)
  residue_eq_zero := by
    intro i
    have residue := congrArg Prod.fst (reduces.pairs i i.isLt)
    rw [range_row]
    exact (Eq.congr_left residue).trans remainder_eq_zero
  dependent := by
    intro q spanned i
    rw [image_row_Iio] at spanned
    have record := congrFun (congrArg Prod.snd (reduces.pairs i i.isLt)) q
    have zero := remainder_dependent (settledRow_eq_zero.mpr spanned)
      (l.vec a.prime a.columns i)
    exact neg_eq_zero.mp (record.trans zero)

end Decompositions

/-- The answer decomposes the rows of `l`, and the matrix is left as every split leaves it. -/
theorem preimages_decompose (wf : a.WellFormed) (wf' : l.WellFormed) (primes : l.prime = a.prime)
    (widths : l.columns = a.columns) (pacer : Pacer) :
    Ends (a.preimages l pacer) (¬ (Fits e l.rows a.rows ∧ Fits e a.rows a.rows))
      (pacer.stopRow a.rows ≠ none)
      fun state answer => answer.Shaped a.prime l.rows a.rows ∧
        state.residues.Shaped a.prime l.rows a.columns ∧
        Decomposes (a.grid a.prime a.rows a.columns)
          (state.matrix.grid a.prime state.matrix.rows a.columns)
          (l.grid a.prime l.rows a.columns) (answer.grid a.prime l.rows a.rows)
          (state.residues.grid a.prime l.rows a.columns) ∧
        ∀ wanted pacer', Ends (a.split wanted pacer')
          (wanted ≠ .nothing ∧ ¬ Fits e a.rows a.rows) (pacer'.stopRow a.rows ≠ none)
          fun split _ => split.1 = state.matrix := by
  have shaped : l.Shaped a.prime l.rows a.columns := ⟨wf', primes, rfl, widths⟩
  refine (preimages_ends wf shaped pacer).imp id id ?_
  rintro state answer ⟨holds, reduces⟩
  refine ⟨reduces.answer_shaped, reduces.residues_shaped, ?_, ?_⟩
  · rw [holds.shaped.rows]
    exact reduces.decomposes holds
  · intro wanted pacer'
    exact (split_ends wf wanted pacer').imp id id fun split d splits =>
      splits.image.unique holds

end

theorem preimages_decompose_of_sample :
    let a := tabulate .batched ⟨5, by decide, by decide⟩ 3 2 fun i j => i + 2 * j
    let l := tabulate .batched ⟨5, by decide, by decide⟩ 2 2 fun i j => 3 * i + j + 1
    Ends (a.preimages l .standard) (¬ (Fits .batched l.rows a.rows ∧ Fits .batched a.rows a.rows))
      (Pacer.standard.stopRow a.rows ≠ none)
      fun state answer => answer.Shaped a.prime l.rows a.rows ∧
        state.residues.Shaped a.prime l.rows a.columns ∧
        Decomposes (a.grid a.prime a.rows a.columns)
          (state.matrix.grid a.prime state.matrix.rows a.columns)
          (l.grid a.prime l.rows a.columns) (answer.grid a.prime l.rows a.rows)
          (state.residues.grid a.prime l.rows a.columns) ∧
        ∀ wanted pacer', Ends (a.split wanted pacer')
          (wanted ≠ .nothing ∧ ¬ Fits .batched a.rows a.rows) (pacer'.stopRow a.rows ≠ none)
          fun split _ => split.1 = state.matrix := by
  intro a l
  have ha : a.Shaped ⟨5, by decide, by decide⟩ 3 2 :=
    tabulate_shaped (by decide) (by decide) (by decide) (by decide) _
  have hl : l.Shaped ⟨5, by decide, by decide⟩ 2 2 :=
    tabulate_shaped (by decide) (by decide) (by decide) (by decide) _
  exact preimages_decompose ha.wellFormed hl.wellFormed (hl.prime.trans ha.prime.symm)
    (hl.columns.trans ha.columns.symm) .standard

end RowReduction.RowMatrix
