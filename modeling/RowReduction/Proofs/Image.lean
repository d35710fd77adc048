import Mathlib
import RowReduction.Proofs.Splitting

/-!
The image that a split leaves. Its rows are the settled rows with a pivot, so they span the row
space of the matrix, and each of them vanishes in the pivot columns of all rows before it.
-/
namespace RowReduction

open EchelonForm

section Vectors

variable {K : Type*} [Field K] [DecidableEq K] {n m r : Nat} {vectors : Nat → Fin n → K}

/-- Every row has a first nonzero column, where all later rows are zero. -/
def ForwardEchelon (M : Matrix (Fin r) (Fin n) K) : Prop :=
  ∃ column : Fin r → Fin n, Function.Injective column ∧
    ∀ k, M k (column k) ≠ 0 ∧ (∀ d, d < column k → M k d = 0) ∧ ∀ l, k < l → M l (column k) = 0

omit [DecidableEq K] in
theorem ForwardEchelon.independent {M : Matrix (Fin r) (Fin n) K} (echelon : ForwardEchelon M) :
    LinearIndependent K M.row := by
  obtain ⟨column, -, rows⟩ := echelon
  exact independent_of_columns (fun k => (rows k).1) fun k l later => (rows k).2.2 l later

omit [DecidableEq K] in
/-- Leading columns with zeros below them are distinct. -/
theorem forwardEchelon_of_columns {M : Matrix (Fin r) (Fin n) K} (column : Fin r → Fin n)
    (rows : ∀ k, M k (column k) ≠ 0 ∧ (∀ d, d < column k → M k d = 0) ∧
      ∀ l, k < l → M l (column k) = 0) : ForwardEchelon M := by
  refine ⟨column, ?_, rows⟩
  intro k l same
  rcases lt_trichotomy k l with before | rfl | after
  · exact absurd (same ▸ (rows k).2.2 l before) (rows l).1
  · rfl
  · exact absurd (same ▸ (rows l).2.2 k after) (rows k).1

/-- The vectors of the settled rows that are not zero span what the initial vectors span. -/
theorem span_settled_vectors :
    Submodule.span K {v | v ≠ 0 ∧ ∃ q, q < m ∧
        (settledRow (LinearMap.fst K _ _) (recorded vectors m) q).1 = v} =
      Submodule.span K (Set.range fun j : Fin m => vectors j) := by
  have image := congrArg (Submodule.map (LinearMap.fst K (Fin n → K) (Fin m → K)))
    (span_settled (LinearMap.fst K _ _) (recorded vectors m) m)
  rw [Submodule.map_span, Submodule.map_span, ← Submodule.span_sdiff_singleton_zero] at image
  convert image using 2
  · ext v
    constructor
    · rintro ⟨nonzero, q, hq, rfl⟩
      exact ⟨⟨_, mem_settled.mpr ⟨q, hq, rfl⟩, rfl⟩, nonzero⟩
    · rintro ⟨⟨r, settled, rfl⟩, nonzero⟩
      obtain ⟨q, hq, rfl⟩ := mem_settled.mp settled
      exact ⟨nonzero, q, hq, rfl⟩
  · ext v
    constructor
    · rintro ⟨j, rfl⟩
      exact ⟨recorded vectors m j, ⟨j, j.isLt, rfl⟩, rfl⟩
    · rintro ⟨_, ⟨j, hj, rfl⟩, rfl⟩
      exact ⟨⟨j, hj⟩, rfl⟩

end Vectors

namespace RowMatrix

section

variable [Storage.Memory] {e : Encoding} {a left : RowMatrix e}

theorem HoldsImage.row_eq (holds : a.HoldsImage left) (k : Fin a.pivotsOf.length) :
    (left.grid a.prime a.pivotsOf.length a.columns).row k =
      (a.settledPair a.pivotsOf[k.val].row).1 :=
  holds.rows k _ (List.getElem?_eq_getElem k.isLt)

theorem HoldsImage.left_shaped {p : SmallPrime} {r n : Nat} (holds : a.HoldsImage left)
    (h : a.Shaped p r n) : left.Shaped p left.rows n :=
  ⟨holds.shaped.wellFormed, holds.shaped.prime.trans h.prime, rfl,
    holds.shaped.columns.trans h.columns⟩

theorem HoldsImage.unique {left' : RowMatrix e} (holds : a.HoldsImage left)
    (holds' : a.HoldsImage left') : left = left' := by
  apply holds.shaped.ext holds'.shaped
  intro k hk
  have place := List.getElem?_eq_getElem hk
  rw [holds.rows k _ place, holds'.rows k _ place]

omit [Storage.Memory] in
theorem leads_of_mem {pivot : Pivot} (member : pivot ∈ a.pivotsOf) :
    ∃ c : Fin a.columns, lead (a.settledPair pivot.row).1 = some c ∧ pivot.column = c := by
  obtain ⟨c, leads, same⟩ := pivotOf_eq_some.mp (mem_pivotsBefore.mp member).2
  exact ⟨c, leads, congrArg Pivot.column same⟩

theorem HoldsImage.echelon (holds : a.HoldsImage left) :
    ForwardEchelon (left.grid a.prime a.pivotsOf.length a.columns) := by
  have leading (k : Fin a.pivotsOf.length) := leads_of_mem (List.getElem_mem k.isLt)
  choose column leads same using leading
  have increasing := List.pairwise_iff_getElem.mp
    (pivotsBefore_pairwise a.recordedRows a.rows)
  apply forwardEchelon_of_columns column
  intro k
  obtain ⟨nonzero, before⟩ := lead_eq_some.mp (leads k)
  refine ⟨?_, ?_, ?_⟩
  · intro zero
    exact nonzero ((congrFun (holds.row_eq k) (column k)).symm.trans zero)
  · intro d hd
    exact (congrFun (holds.row_eq k) d).trans (before d hd)
  · intro l later
    have vanishes : Pair.vector _ _ _ (a.settledPair a.pivotsOf[l.val].row) (column k) = 0 :=
      settledRow_column (increasing k l k.isLt l.isLt later) (leads k)
    exact (congrFun (holds.row_eq l) (column k)).trans vanishes

theorem HoldsImage.span_eq (holds : a.HoldsImage left) :
    Submodule.span (Residue a.prime)
        (Set.range (left.grid a.prime a.pivotsOf.length a.columns).row) =
      Submodule.span (Residue a.prime) (Set.range (a.grid a.prime a.rows a.columns).row) := by
  have rows : Set.range (left.grid a.prime a.pivotsOf.length a.columns).row =
      {v | v ≠ 0 ∧ ∃ q, q < a.rows ∧ (a.settledPair q).1 = v} := by
    ext v
    constructor
    · rintro ⟨k, rfl⟩
      have member := List.getElem_mem k.isLt
      obtain ⟨c, leads, -⟩ := leads_of_mem member
      refine ⟨?_, _, pivotsOf_row_lt member, (holds.row_eq k).symm⟩
      intro zero
      rw [← holds.row_eq k, zero] at leads
      simp [lead] at leads
    · rintro ⟨nonzero, q, inside, rfl⟩
      obtain ⟨pivot, found⟩ : ∃ pivot, pivotOf (a.settledPair q).1 q = some pivot := by
        rw [← Option.ne_none_iff_exists']
        exact fun none_left => nonzero (pivotOf_eq_none.mp none_left)
      obtain rfl := row_of_pivotOf found
      obtain ⟨k, hk, rfl⟩ :=
        List.mem_iff_getElem.mp (mem_pivotsBefore.mpr ⟨inside, found⟩)
      exact ⟨⟨k, hk⟩, holds.row_eq ⟨k, hk⟩⟩
  rw [rows, span_settled_vectors]
  rfl

/-- A split leaves a basis of the row space in echelon form, and answers with its dimension. -/
theorem split_row_space (wf : a.WellFormed) (wanted : Wanted) (pacer : Pacer) :
    Ends (a.split wanted pacer) (wanted ≠ .nothing ∧ ¬ Fits e a.rows a.rows)
      (pacer.stopRow a.rows ≠ none)
      fun state d => state.1.Shaped a.prime state.1.rows a.columns ∧
        Submodule.span (Residue a.prime)
            (Set.range (state.1.grid a.prime state.1.rows a.columns).row) =
          Submodule.span (Residue a.prime)
            (Set.range (a.grid a.prime a.rows a.columns).row) ∧
        LinearIndependent (Residue a.prime) (state.1.grid a.prime state.1.rows a.columns).row ∧
        ForwardEchelon (state.1.grid a.prime state.1.rows a.columns) ∧
        d.rank = state.1.rows ∧
        d.rank = Module.finrank (Residue a.prime)
          (Submodule.span (Residue a.prime)
            (Set.range (a.grid a.prime a.rows a.columns).row)) := by
  refine (split_ends wf wanted pacer).imp id id ?_
  intro state d splits
  have holds := splits.image
  have echelon := holds.echelon
  have spans := holds.span_eq
  have shaped := holds.shaped
  have rank := splits.rank
  rw [← holds.shaped.rows] at echelon spans shaped rank
  refine ⟨shaped, spans, echelon.independent, echelon, rank, ?_⟩
  rw [← spans, finrank_span_eq_card echelon.independent, Fintype.card_fin]
  exact rank

end

theorem split_row_space_of_sample :
    let sample := tabulate .packed .two 3 70 fun i j => i * j
    Ends (sample.split .everything .standard)
      (Wanted.everything ≠ .nothing ∧ ¬ Fits .packed sample.rows sample.rows)
      (Pacer.standard.stopRow sample.rows ≠ none)
      fun state d => state.1.Shaped sample.prime state.1.rows sample.columns ∧
        Submodule.span (Residue sample.prime)
            (Set.range (state.1.grid sample.prime state.1.rows sample.columns).row) =
          Submodule.span (Residue sample.prime)
            (Set.range (sample.grid sample.prime sample.rows sample.columns).row) ∧
        LinearIndependent (Residue sample.prime)
          (state.1.grid sample.prime state.1.rows sample.columns).row ∧
        ForwardEchelon (state.1.grid sample.prime state.1.rows sample.columns) ∧
        d.rank = state.1.rows ∧
        d.rank = Module.finrank (Residue sample.prime)
          (Submodule.span (Residue sample.prime)
            (Set.range (sample.grid sample.prime sample.rows sample.columns).row)) :=
  split_row_space
    (tabulate_shaped (by decide) (by decide) (by decide) (by decide) _).wellFormed _ _

end RowMatrix

end RowReduction
