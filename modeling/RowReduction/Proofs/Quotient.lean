import Mathlib
import RowReduction.QuotientBasis
import RowReduction.Proofs.Image
import RowReduction.Proofs.Remainder

/-!
Quotient bases. Clearing by the rows of an image, one after the other, changes every row by an
element of their span. If the image is in echelon form the rows then vanish in all of its leading
columns, and so does every combination of them: the elimination that follows cannot fill such a
column again. Nothing but zero lies in both spans, so what is left is a basis of the quotient.
-/
namespace RowReduction

open EchelonForm

section Vectors

variable {K : Type*} [Field K] [DecidableEq K] {k n r : Nat}

abbrev rowSpan (M : Matrix (Fin r) (Fin n) K) : Submodule K (Fin n → K) :=
  Submodule.span K (Set.range M.row)

/-- Every row vanishes in the first nonzero column of each row before it. Zero rows may stand
anywhere. -/
def EchelonWithZeros (M : Matrix (Fin r) (Fin n) K) : Prop :=
  ∀ i j, i < j → ∀ c, lead (M.row i) = some c → M j c = 0

/-- The rows of `left` are a basis of the row space of `M` modulo that of `I`. They are in echelon
form and vanish in the leading columns of `I`. -/
structure QuotientBasisOf (M : Matrix (Fin r) (Fin n) K) (I : Matrix (Fin k) (Fin n) K) {s : Nat}
    (left : Matrix (Fin s) (Fin n) K) : Prop where
  independent : LinearIndependent K left.row
  echelon : ForwardEchelon left
  reduced : ∀ t c, lead (I.row t) = some c → ∀ i, left i c = 0
  sup_eq : rowSpan left ⊔ rowSpan I = rowSpan M ⊔ rowSpan I
  disjoint : Disjoint (rowSpan left) (rowSpan I)
  rows_add : s + Module.finrank K (rowSpan I) = Module.finrank K ↥(rowSpan M ⊔ rowSpan I)
  rows_eq : s = Module.finrank K (↥(rowSpan M) ⧸ (rowSpan M ⊓ rowSpan I).submoduleOf (rowSpan M))

variable {I : Matrix (Fin k) (Fin n) K}

omit [DecidableEq K] in
theorem rowSpan_ofFn (I : Matrix (Fin k) (Fin n) K) :
    rowSpan I = Submodule.span K {v | v ∈ List.ofFn I.row} := by
  have rows : Set.range I.row = {v | v ∈ List.ofFn I.row} := by
    ext v
    exact (List.mem_ofFn' I.row v).symm
  rw [rowSpan, rows]

theorem EchelonWithZeros.isEchelon (echelon : EchelonWithZeros I) :
    IsEchelon (plain K n) (List.ofFn I.row) := by
  rw [IsEchelon, List.pairwise_ofFn]
  intro i j earlier c leads
  exact echelon i j earlier c leads

omit [DecidableEq K] in
/-- Rows that change by elements of a row space span the same together with it. -/
theorem sup_rowSpan_of_change {M N : Matrix (Fin r) (Fin n) K}
    (change : ∀ i, N.row i - M.row i ∈ rowSpan I) :
    rowSpan N ⊔ rowSpan I = rowSpan M ⊔ rowSpan I := by
  apply le_antisymm
  · refine sup_le (Submodule.span_le.mpr ?_) le_sup_right
    rintro _ ⟨i, rfl⟩
    have sum := Submodule.add_mem_sup
      (Submodule.subset_span (Set.mem_range_self i) : M.row i ∈ rowSpan M) (change i)
    rwa [add_sub_cancel] at sum
  · refine sup_le (Submodule.span_le.mpr ?_) le_sup_right
    rintro _ ⟨i, rfl⟩
    have difference := Submodule.add_mem_sup
      (Submodule.subset_span (Set.mem_range_self i) : N.row i ∈ rowSpan N)
      (Submodule.neg_mem _ (change i))
    rwa [neg_sub, add_sub_cancel] at difference

/-- Reduced rows span the same space together with the image. -/
theorem sup_rowSpan_reduce {M N : Matrix (Fin r) (Fin n) K}
    (rows : ∀ i, N.row i = reduce (plain K n) (List.ofFn I.row) (M.row i)) :
    rowSpan N ⊔ rowSpan I = rowSpan M ⊔ rowSpan I := by
  apply sup_rowSpan_of_change
  intro i
  rw [rows, rowSpan_ofFn]
  exact reduce_sub_mem (plain K n) _ _ (fun v member _ => Submodule.subset_span member) _

omit [DecidableEq K] in
/-- What vanishes in a column of all rows vanishes there in their whole span. -/
theorem column_of_mem_rowSpan {N : Matrix (Fin r) (Fin n) K} {c : Fin n} (zero : ∀ i, N i c = 0)
    {v : Fin n → K} (member : v ∈ rowSpan N) : v c = 0 := by
  have vanishes : plain K n v c = 0 := view_of_mem_span (Set.forall_mem_range.mpr zero) member
  exact vanishes

theorem disjoint_rowSpan {N : Matrix (Fin r) (Fin n) K} (echelon : EchelonWithZeros I)
    (zero : ∀ t c, lead (I.row t) = some c → ∀ i, N i c = 0) :
    Disjoint (rowSpan N) (rowSpan I) := by
  rw [Submodule.disjoint_def]
  intro v left right
  rw [rowSpan_ofFn] at right
  have zero_rows := mem_span_zero_rows echelon.isEchelon right fun u member c leads => by
    obtain ⟨t, rfl⟩ := (List.mem_ofFn' _ _).mp member
    exact column_of_mem_rowSpan (zero t c leads) left
  rw [← Submodule.mem_bot K, ← Submodule.span_zero_singleton K]
  exact Submodule.span_mono (fun u zero => zero.2) zero_rows

omit [DecidableEq K] in
/-- The dimension of `U` modulo its intersection with `W`. -/
theorem finrank_quotient_inf {V : Type*} [AddCommGroup V] [Module K V] [FiniteDimensional K V]
    (U W : Submodule K V) : Module.finrank K (↥U ⧸ (U ⊓ W).submoduleOf U) + Module.finrank K W =
      Module.finrank K ↥(U ⊔ W) := by
  have quotient := Submodule.finrank_quotient_add_finrank ((U ⊓ W).submoduleOf U)
  have meet := (Submodule.submoduleOfEquivOfLe (inf_le_left : U ⊓ W ≤ U)).finrank_eq
  have join := Submodule.finrank_sup_add_finrank_inf_eq U W
  omega

/-- Rows that are reduced by an image in echelon form and then replaced by a basis of their span in
echelon form are a basis of the quotient. -/
theorem quotientBasisOf_reduced {s : Nat} {M N : Matrix (Fin r) (Fin n) K}
    {left : Matrix (Fin s) (Fin n) K} (echelon : EchelonWithZeros I)
    (rows : ∀ i, N.row i = reduce (plain K n) (List.ofFn I.row) (M.row i))
    (basis : ForwardEchelon left) (same : rowSpan left = rowSpan N) : QuotientBasisOf M I left := by
  have independent := basis.independent
  have reduced (t : Fin k) (c : Fin n) (leads : lead (I.row t) = some c) (i : Fin s) :
      left i c = 0 := by
    have member : left.row i ∈ rowSpan left := Submodule.subset_span (Set.mem_range_self i)
    rw [same] at member
    refine column_of_mem_rowSpan (fun j => ?_) member
    have vanishes : plain K n (reduce (plain K n) (List.ofFn I.row) (M.row j)) c = 0 :=
      view_reduce_lead echelon.isEchelon ((List.mem_ofFn' _ _).mpr ⟨t, rfl⟩) leads _
    exact (congrFun (rows j) c).trans vanishes
  have sup_eq : rowSpan left ⊔ rowSpan I = rowSpan M ⊔ rowSpan I := by
    rw [same, sup_rowSpan_reduce rows]
  have disjoint := disjoint_rowSpan echelon reduced
  have dimension : s = Module.finrank K (rowSpan left) := by
    rw [finrank_span_eq_card independent, Fintype.card_fin]
  have total := Submodule.finrank_sup_add_finrank_inf_eq (rowSpan left) (rowSpan I)
  rw [disjoint.eq_bot, finrank_bot, sup_eq, add_zero, ← dimension] at total
  have quotient := finrank_quotient_inf (rowSpan M) (rowSpan I)
  exact ⟨independent, basis, reduced, sup_eq, disjoint, total.symm, by omega⟩

end Vectors

namespace RowMatrix

section

variable [Storage.Memory] {e : Encoding} {p : SmallPrime} {k n r : Nat} {m image : RowMatrix e}

/-- Clearing an entry by a pivot of the image clears the whole row by the pivot's row. -/
theorem Shaped.clearByImage_ok (h : m.Shaped p r n) (hi : image.Shaped p k n) {i j : Nat}
    (image_row : i < k) (hj : j < r) {pivot : Pivot}
    (found : pivotOf (image.vec p n i) i = some pivot) :
    ∃ m', m.clearByImage image pivot j = .ok m' ∧ m'.Shaped p r n ∧
      m'.vec p n = Function.update (m.vec p n) j
        (EchelonForm.clear (plain (Residue p) n) (image.vec p n i) (m.vec p n j)) := by
  obtain ⟨c, leads, rfl⟩ := pivotOf_eq_some.mp found
  have before (d : Fin n) (hd : d.val < c.val) : image.vec p n i d = 0 :=
    (lead_eq_some.mp leads).2 d hd
  unfold clearByImage
  simp only [h.entry_eq hj c, h.prime, bind, Except.bind]
  by_cases zero : (m.vec p n j c).val = 0
  · have vanishes := (ZMod.val_eq_zero _).mp zero
    have same := clear_of_zero (plain (Residue p) n) (r := image.vec p n i) (x := m.vec p n j)
      leads vanishes
    refine ⟨m, if_pos zero, h, ?_⟩
    simp only [same, Function.update_eq_self]
  · have cleared := clear_of_lead (plain (Residue p) n) (r := image.vec p n i) leads (m.vec p n j)
    have cast := p.cast_product (-(image.vec p n i c)⁻¹) (m.vec p n j c)
    obtain ⟨m', added, shaped, rows⟩ := h.addRowOf_ok hi hj image_row
      (p.product (-(image.vec p n i c)⁻¹).val (m.vec p n j c).val) c before
    refine ⟨m', (if_neg zero).trans added, shaped, ?_⟩
    simp only [rows, cast, cleared, LinearMap.id_apply]

/-- A row of the image clears its leading column, if it has one, from every row. -/
theorem Shaped.reduceByRow_ok (h : m.Shaped p r n) (hi : image.Shaped p k n) {i : Nat}
    (image_row : i < k) :
    ∃ m', m.reduceByRow image i = .ok m' ∧ m'.Shaped p r n ∧ ∀ j, j < r →
      m'.vec p n j = EchelonForm.clear (plain (Residue p) n) (image.vec p n i) (m.vec p n j) := by
  unfold reduceByRow
  simp only [hi.leading_eq image_row]
  cases leads : lead (image.vec p n i) with
  | none => exact ⟨m, rfl, h, fun j _ => (clear_of_lead_none leads _).symm⟩
  | some c =>
    have coefficient := p.clearingCoefficient_eq (lead_eq_some.mp leads).1
    have found : pivotOf (image.vec p n i) i =
        some ⟨i, c.val, (-(image.vec p n i c)⁻¹).val⟩ := pivotOf_eq_some.mpr ⟨c, leads, rfl⟩
    obtain ⟨m', run, shaped, rows⟩ := foldRows_ok (P := fun m : RowMatrix e => m.Shaped p r n)
      (v := fun m => m.vec p n)
      (f := fun m j => m.clearByImage image ⟨i, c.val, (-(image.vec p n i c)⁻¹).val⟩ j)
      (g := fun _ => EchelonForm.clear (plain (Residue p) n) (image.vec p n i))
      (fun m j hj shaped => shaped.clearByImage_ok hi image_row hj found) h
    refine ⟨m', ?_, shaped, fun j hj => (rows j).trans (if_pos hj)⟩
    simp only [Option.map_some, bind, Except.bind, h.prime, h.rows, coefficient]
    exact run

/-- The first pass goes through its checkpoints as the pacer alone would, and reduces by all rows of
the image before the one that stops it. -/
theorem Shaped.reduceFrom_ok (h : m.Shaped p r n) (hi : image.Shaped p k n) (remaining i : Nat)
    (room : i + remaining ≤ k) (pacer : Pacer) :
    let walked := pacer.walk k remaining i
    let reached := walked.2.getD (i + remaining)
    ∃ m', reduceFrom image remaining i m pacer = .ok ⟨(m', walked.1), Pacer.ending walked.2⟩ ∧
      m'.Shaped p r n ∧ ∀ j, j < r → m'.vec p n j =
        reduce (plain (Residue p) n) ((List.range' i (reached - i)).map (image.vec p n))
          (m.vec p n j) := by
  induction remaining generalizing m i pacer with
  | zero =>
    refine ⟨m, rfl, h, ?_⟩
    intro j _
    simp [Pacer.walk]
  | succ remaining ih =>
    have total := hi.rows
    cases Pacer.checkpoint_cases pacer i k with
    | inl going =>
      obtain ⟨next, passed, -⟩ := going
      obtain ⟨reduced, run, shaped, rows⟩ := h.reduceByRow_ok hi (i := i) (by omega)
      obtain ⟨m', rest, final, others⟩ := ih shaped (i + 1) (by omega) next
      have forward := next.le_reached k remaining (i + 1)
      simp only [Pacer.walk, passed, reduceFrom, total, run, rest, bind, Except.bind]
      refine ⟨m', rfl, final, ?_⟩
      intro j hj
      have numbers : i + (remaining + 1) = i + 1 + remaining := by omega
      simp only [others j hj, rows j hj, numbers, Pacer.range_reached forward, List.map_cons,
        reduce_cons]
    | inr stopped =>
      simp only [Pacer.walk, stopped.1, reduceFrom, total]
      refine ⟨m, rfl, h, ?_⟩
      intro j _
      simp

omit [Storage.Memory] in
theorem ofFn_row (m : RowMatrix e) (p : SmallPrime) (k n : Nat) :
    List.ofFn (m.grid p k n).row = (List.range k).map (m.vec p n) := by
  apply List.ext_getElem
  · simp
  · intro i inside _
    simp only [List.getElem_ofFn, List.getElem_map, List.getElem_range]
    rfl

omit [Storage.Memory] in
/-- The rows of an image in echelon form are settled as they are. -/
theorem settled_vec (echelon : EchelonWithZeros (image.grid p r n)) :
    settled (plain (Residue p) n) (image.vec p n) r = (List.range r).map (image.vec p n) := by
  have rows := echelon.isEchelon
  rw [ofFn_row] at rows
  exact settled_of_echelon rows

/-- The rows of `m`, each reduced by the first `i` rows of the image. -/
structure ReducedBy (m image : RowMatrix e) (i : Nat) (reduced : RowMatrix e) : Prop where
  shaped : reduced.Shaped m.prime m.rows m.columns
  rows : ∀ j, j < m.rows → reduced.vec m.prime m.columns j =
    reduce (plain (Residue m.prime) m.columns)
      ((List.range i).map (image.vec m.prime m.columns)) (m.vec m.prime m.columns j)

theorem ReducedBy.unique {k : Nat} {reduced reduced' : RowMatrix e}
    (result : m.ReducedBy image k reduced) (result' : m.ReducedBy image k reduced') :
    reduced = reduced' :=
  result.shaped.ext result'.shaped fun j hj => (result.rows j hj).trans (result'.rows j hj).symm

theorem firstPass_ok (wf : m.WellFormed) (hi : image.Shaped m.prime k m.columns) (pacer : Pacer) :
    ∃ reduced, reduceFrom image k 0 m pacer =
        .ok ⟨(reduced, pacer.afterRows k), Pacer.ending (pacer.stopRow k)⟩ ∧
      m.ReducedBy image ((pacer.stopRow k).getD k) reduced := by
  obtain ⟨reduced, run, shaped, rows⟩ := wf.shaped.reduceFrom_ok hi k 0 (by omega) pacer
  simp only [Nat.zero_add, Nat.sub_zero, ← List.range_eq_range'] at rows
  exact ⟨reduced, run, shaped, rows⟩

theorem quotientBasis_eq (wf : m.WellFormed) (hi : image.Shaped m.prime k m.columns)
    (pacer : Pacer) : m.quotientBasis image pacer = (do
      let ⟨(m, pacer), reduced⟩ ← reduceFrom image k 0 m pacer
      match reduced with
      | .error stopped => return ⟨(m, pacer), .error stopped⟩
      | .ok () =>
        let start := Elimination.start ⟨m, none, none⟩ () pacer.endPass
        let ⟨s, eliminated⟩ ← start.run fun _ _ _ => return ()
        return ⟨(s.workspace.matrix, s.pacer), eliminated⟩) := by
  have primes : require (image.prime = m.prime) .quotientOverDifferentPrimes = .ok () :=
    require_eq_ok.mpr (decide_eq_true hi.prime)
  simp only [quotientBasis, primes, wf.shaped.checkWidths_ok hi, hi.rows]
  rfl

theorem quotientBasis_of_widths_ne (primes : image.prime = m.prime)
    (apart : m.columns ≠ image.columns) (pacer : Pacer) : m.quotientBasis image pacer =
      .ok ⟨(m, pacer), .error (.storage (.widthMismatch m.columns image.columns))⟩ := by
  have widths : checkWidths m.columns image.columns =
      .error (.widthMismatch m.columns image.columns) := if_neg apart
  simp only [quotientBasis, primes, decide_true, require, if_true, widths]
  rfl

variable {pacer : Pacer} {row : Nat}

theorem quotientBasis_stopped_first (wf : m.WellFormed) (hi : image.Shaped m.prime k m.columns)
    (stopped : pacer.stopRow k = some row) :
    ∃ left, m.quotientBasis image pacer =
        .ok ⟨(left, pacer.afterRows k), .error .interrupted⟩ ∧ m.ReducedBy image row left := by
  obtain ⟨left, run, reduced⟩ := firstPass_ok wf hi pacer
  simp only [stopped, Pacer.ending, Option.getD_some] at run reduced
  refine ⟨left, ?_, reduced⟩
  simp only [quotientBasis_eq wf hi, run, bind, Except.bind]
  rfl

/-- The second pass eliminates the rows that the first one leaves. -/
theorem secondPass_ok (wf : m.WellFormed) (hi : image.Shaped m.prime k m.columns)
    (passed : pacer.stopRow k = none) :
    ∃ reduced, m.ReducedBy image k reduced ∧
      (⟨reduced, none, none⟩ : Workspace e).Shaped reduced.prime reduced.rows reduced.columns ∧
      m.quotientBasis image pacer = (do
        let ⟨s, eliminated⟩ ← (Elimination.start ⟨reduced, none, none⟩ ()
          (pacer.afterRows k).endPass).run fun _ _ _ => return ()
        return ⟨(s.workspace.matrix, s.pacer), eliminated⟩) := by
  obtain ⟨reduced, run, result⟩ := firstPass_ok wf hi pacer
  simp only [passed, Pacer.ending, Option.getD_none] at run result
  refine ⟨reduced, result, ⟨result.shaped.wellFormed.shaped, by simp, by simp⟩, ?_⟩
  simp only [quotientBasis_eq wf hi, run, bind, Except.bind]

theorem quotientBasis_stopped_second (wf : m.WellFormed) (hi : image.Shaped m.prime k m.columns)
    (passed : pacer.stopRow k = none)
    (stopped : (pacer.afterRows k).endPass.stopRow m.rows = some row) :
    ∃ reduced left, m.quotientBasis image pacer =
        .ok ⟨(left, (pacer.afterRows k).endPass.afterRows m.rows), .error .interrupted⟩ ∧
      m.ReducedBy image k reduced ∧ reduced.HoldsVisited row left := by
  obtain ⟨reduced, result, shaped, call⟩ := secondPass_ok wf hi passed
  rw [← result.shaped.rows] at stopped ⊢
  obtain ⟨s, run, agrees, -, pacing⟩ :=
    Elimination.run_interrupted shaped (keeps_nothing _ _ _ _) () trivial _ stopped
  refine ⟨reduced, s.workspace.matrix, ?_, result, holdsVisited_of_agrees agrees⟩
  simp only [call, run, ← pacing, bind, Except.bind]
  rfl

theorem quotientBasis_ok (wf : m.WellFormed) (hi : image.Shaped m.prime k m.columns)
    (passed : pacer.stopRow k = none)
    (uninterrupted : (pacer.afterRows k).endPass.stopRow m.rows = none) :
    ∃ reduced left, m.quotientBasis image pacer =
        .ok ⟨(left, (pacer.afterRows k).endPass.afterRows m.rows), .ok ()⟩ ∧
      m.ReducedBy image k reduced ∧ reduced.HoldsImage left := by
  obtain ⟨reduced, result, shaped, call⟩ := secondPass_ok wf hi passed
  rw [← result.shaped.rows] at uninterrupted ⊢
  obtain ⟨s, run, finished, -, pacing⟩ :=
    Elimination.run_complete shaped (keeps_nothing _ _ _ _) () trivial _ uninterrupted
  refine ⟨reduced, s.workspace.matrix, ?_, result, holdsImage_of_finished finished⟩
  simp only [call, run, ← pacing, bind, Except.bind]
  rfl

/-- Both passes are made unless one of them is interrupted. -/
theorem quotientBasis_ends (wf : m.WellFormed) (hi : image.Shaped m.prime k m.columns)
    (pacer : Pacer) :
    Ends (m.quotientBasis image pacer) False
      (pacer.stopRow k ≠ none ∨ (pacer.afterRows k).endPass.stopRow m.rows ≠ none)
      fun state _ => ∃ reduced, m.ReducedBy image k reduced ∧ reduced.HoldsImage state.1 := by
  cases first : pacer.stopRow k with
  | some row =>
    obtain ⟨left, call, -⟩ := quotientBasis_stopped_first wf hi first
    exact ⟨_, call, Or.inl (Option.some_ne_none row)⟩
  | none =>
    cases second : (pacer.afterRows k).endPass.stopRow m.rows with
    | some row =>
      obtain ⟨reduced, left, call, -⟩ := quotientBasis_stopped_second wf hi first second
      exact ⟨_, call, Or.inr (Option.some_ne_none row)⟩
    | none =>
      obtain ⟨reduced, left, call, result, holds⟩ := quotientBasis_ok wf hi first second
      exact ⟨_, call, reduced, result, holds⟩

/-- What is left after both passes is a basis of the quotient. -/
theorem ReducedBy.quotientBasisOf {reduced left : RowMatrix e}
    (result : m.ReducedBy image k reduced) (holds : reduced.HoldsImage left)
    (echelon : EchelonWithZeros (image.grid m.prime k m.columns)) :
    left.Shaped m.prime left.rows m.columns ∧
      QuotientBasisOf (m.grid m.prime m.rows m.columns) (image.grid m.prime k m.columns)
        (left.grid m.prime left.rows m.columns) := by
  obtain ⟨shaped, rows⟩ := result
  obtain ⟨prime, count, columns, cells⟩ := reduced
  obtain rfl : prime = m.prime := shaped.prime
  obtain rfl : count = m.rows := shaped.rows
  obtain rfl : columns = m.columns := shaped.columns
  have basis := holds.echelon
  have same := holds.span_eq
  rw [← holds.shaped.rows] at basis same
  refine ⟨holds.left_shaped shaped, quotientBasisOf_reduced echelon (fun j => ?_) basis same⟩
  rw [ofFn_row]
  exact rows j j.isLt

/-- A quotient basis is a basis of the rows of `m` modulo the row space of an image in echelon
form. No storage is needed for it. -/
theorem quotientBasis_complement (wf : m.WellFormed) (wf' : image.WellFormed)
    (primes : image.prime = m.prime) (widths : image.columns = m.columns)
    (echelon : EchelonWithZeros (image.grid m.prime image.rows m.columns)) (pacer : Pacer) :
    Ends (m.quotientBasis image pacer) False
      (pacer.stopRow image.rows ≠ none ∨
        (pacer.afterRows image.rows).endPass.stopRow m.rows ≠ none)
      fun state _ => state.1.Shaped m.prime state.1.rows m.columns ∧
        QuotientBasisOf (m.grid m.prime m.rows m.columns)
          (image.grid m.prime image.rows m.columns)
          (state.1.grid m.prime state.1.rows m.columns) := by
  have hi : image.Shaped m.prime image.rows m.columns := ⟨wf', primes, rfl, widths⟩
  cases first : pacer.stopRow image.rows with
  | some row =>
    obtain ⟨left, call, -⟩ := quotientBasis_stopped_first wf hi first
    exact ⟨_, call, Or.inl (Option.some_ne_none row)⟩
  | none =>
    cases second : (pacer.afterRows image.rows).endPass.stopRow m.rows with
    | some row =>
      obtain ⟨reduced, left, call, -⟩ := quotientBasis_stopped_second wf hi first second
      exact ⟨_, call, Or.inr (Option.some_ne_none row)⟩
    | none =>
      obtain ⟨reduced, left, call, result, holds⟩ := quotientBasis_ok wf hi first second
      exact ⟨_, call, result.quotientBasisOf holds echelon⟩

end

theorem quotientBasis_complement_of_sample :
    let m := tabulate .batched ⟨5, by decide, by decide⟩ 3 4 fun i j => i * j + 2 * i + 1
    let image := tabulate .batched ⟨5, by decide, by decide⟩ 3 4 fun i j =>
      if i = 0 ∧ j = 2 ∨ i = 2 ∧ j = 1 then 3 else 0
    EchelonWithZeros (image.grid m.prime image.rows m.columns) ∧
    Ends (m.quotientBasis image .standard) False
      (Pacer.standard.stopRow image.rows ≠ none ∨
        (Pacer.standard.afterRows image.rows).endPass.stopRow m.rows ≠ none)
      fun state _ => state.1.Shaped m.prime state.1.rows m.columns ∧
        QuotientBasisOf (m.grid m.prime m.rows m.columns)
          (image.grid m.prime image.rows m.columns)
          (state.1.grid m.prime state.1.rows m.columns) := by
  intro m image
  have hm : m.Shaped ⟨5, by decide, by decide⟩ 3 4 :=
    tabulate_shaped (by decide) (by decide) (by decide) (by decide) _
  have hi : image.Shaped ⟨5, by decide, by decide⟩ 3 4 :=
    tabulate_shaped (by decide) (by decide) (by decide) (by decide) _
  refine ⟨?echelon, quotientBasis_complement hm.wellFormed hi.wellFormed
    (hi.prime.trans hm.prime.symm) (hi.columns.trans hm.columns.symm) ?echelon .standard⟩
  intro i j earlier c leads
  have row : j.val < 3 := Nat.lt_of_lt_of_eq j.isLt hi.rows
  have column : c.val < 4 := Nat.lt_of_lt_of_eq c.isLt hm.columns
  have entry (i : Nat) (inside : i < 3) : image.read i c =
      (if i = 0 ∧ c.val = 2 ∨ i = 2 ∧ c.val = 1 then 3 else 0) % 5 :=
    read_tabulate (by decide) (by decide) (by decide) (by decide) _ inside column
  have nonzero : image.read i c ≠ 0 := by
    intro zero
    exact (lead_eq_some.mp leads).1 (congrArg (Nat.cast (R := Residue m.prime)) zero)
  have zero : image.read j c = 0 := by
    rw [entry i (by omega)] at nonzero
    rw [entry j row]
    have apart : ¬ (j.val = 0 ∧ c.val = 2 ∨ j.val = 2 ∧ c.val = 1) := by
      intro hit
      rw [if_neg (by omega)] at nonzero
      exact nonzero rfl
    rw [if_neg apart]
  exact congrArg (Nat.cast (R := Residue m.prime)) zero

end RowMatrix

end RowReduction
