import Mathlib
import RowReduction.Proofs.ChangeOfBasis
import RowReduction.Proofs.Stacks

/-!
Which rows an elimination keeps, in terms of the initial matrix alone. A row survives if it is no
combination of the rows before it, and what is left of it is the one vector in its coset that
vanishes in the leading columns of the survivors before it. No later row has a part in this, so the
elimination of the first rows answers with the first rows, pivots and kernel rows of the whole
elimination. The kernel rows of the whole matrix are longer, and are zero there.
-/
namespace RowReduction

namespace EchelonForm

variable {K : Type*} [Field K] {k m n r : Nat}

/-- A record of few rows as a record of more rows. -/
noncomputable def widen (fewer : k ≤ m) : (Fin k → K) →ₗ[K] Fin m → K :=
  Function.ExtendByZero.linearMap K (Fin.castLE fewer)

theorem widen_apply (fewer : k ≤ m) (v : Fin k → K) (l : Fin m) :
    widen fewer v l = if inside : l.val < k then v ⟨l, inside⟩ else 0 := by
  have injective := Fin.castLE_injective fewer
  split
  · rename_i inside
    exact injective.extend_apply v 0 ⟨l, inside⟩
  · rename_i outside
    apply Function.extend_apply'
    rintro ⟨i, rfl⟩
    exact outside i.isLt

variable {vectors others : Nat → Fin n → K}

/-- The record of an early row, among the first rows and among all of them. -/
theorem recorded_widen (fewer : k ≤ m) {i : Nat} (inside : i < k) (same : others i = vectors i) :
    recorded vectors m i = (others i, widen fewer (recorded others k i).2) := by
  apply Prod.ext same.symm
  funext l
  simp only [recorded, widen_apply]
  by_cases here : l.val = i
  · simp [here, inside]
  · simp [here]

variable [DecidableEq K]

/-- The record of a settled row says nothing of later rows. -/
theorem settledRow_widen (fewer : k ≤ m) (same : ∀ i, i < k → others i = vectors i) {j : Nat}
    (inside : j < k) : (settledRow (LinearMap.fst K _ _) (recorded vectors m) j).2 =
      widen fewer (settledRow (LinearMap.fst K _ _) (recorded others k) j).2 := by
  -- Elimination looks at the vectors alone, so it commutes with a map of the records.
  have mapped := settledRow_map (LinearMap.fst K (Fin n → K) (Fin k → K)) (recorded others k)
    (LinearMap.fst K (Fin n → K) (Fin m → K)) (LinearMap.id.prodMap (widen fewer)) (fun _ => rfl) j
  have early (i : Nat) (before : i ≤ j) : recorded vectors m i =
      LinearMap.id.prodMap (widen fewer) (recorded others k i) := by
    have row : i < k := Nat.lt_of_le_of_lt before inside
    exact recorded_widen fewer row (same i row)
  rw [settledRow_congr early, ← mapped]
  rfl

/-- A settled row is the only vector of its coset, modulo the rows before it, that vanishes in the
leading columns of the survivors among them. -/
theorem eq_settledRow_iff {q : Nat} {v : Fin n → K} :
    v = settledRow (plain K n) vectors q ↔
      v - vectors q ∈ Submodule.span K (vectors '' Set.Iio q) ∧
        ∀ u ∈ survivors vectors q, ∀ c, lead u = some c → v c = 0 := by
  rw [settledRow, ← reduce_survivors]
  constructor
  · rintro rfl
    constructor
    · apply reduce_sub_mem
      intro u member _
      rw [← span_survivors]
      exact Submodule.subset_span member
    · intro u member c leads
      exact view_reduce_lead (isEchelon_survivors vectors q) member leads (vectors q)
  · rintro ⟨change, reduced⟩
    rw [← reduce_survivors_congr change]
    exact (reduce_of_zero reduced).symm

/-- Row `k` of the image is what survives of row `source k` of `A`. The rows that survive are those
that are no combination of the rows before them, in their order, and what is left of a row is the
only vector of its coset that vanishes in the leading columns of the survivors before it. -/
structure Survives (A : Matrix (Fin m) (Fin n) K) (image : Matrix (Fin r) (Fin n) K)
    (source : Fin r → Fin m) : Prop where
  increasing : StrictMono source
  survives_iff : ∀ i, i ∈ Set.range source ↔ A.row i ∉ Submodule.span K (A.row '' Set.Iio i)
  row_iff : ∀ k v, v = image.row k ↔
    v - A.row (source k) ∈ Submodule.span K (A.row '' Set.Iio (source k)) ∧
      ∀ l, l < k → ∀ c, lead (image.row l) = some c → v c = 0

end EchelonForm

open EchelonForm

theorem residues_widen {p : SmallPrime} {k m : Nat} (fewer : k ≤ m) (v : Fin k → Residue p) :
    residues (widen fewer v) = residues v ++ List.replicate (m - k) 0 := by
  apply List.ext_getElem
  · simp [fewer]
  · intro j inside _
    simp only [residues, List.getElem_ofFn, widen_apply, List.getElem_append, List.length_ofFn,
      List.getElem_replicate]
    split
    · rfl
    · exact ZMod.val_zero

namespace RowMatrix

section

variable [Storage.Memory] {e f : Encoding} {a left kernel : RowMatrix e}
  {b : PivotBasis (RowMatrix e)} {a' left' kernel' : RowMatrix f} {b' : PivotBasis (RowMatrix f)}

/-- The survivors among the rows before a pivot are the rows of the image before its row. -/
theorem HoldsImage.survivors_row (holds : a.HoldsImage left) (k : Fin a.pivotsOf.length) :
    survivors (a.vec a.prime a.columns) (a.pivotsOf.get k).row =
      (List.range k).map (left.vec a.prime a.columns) := by
  have before : pivotsBefore a.recordedRows (a.pivotsOf.get k).row = a.pivotsOf.take k :=
    pivotsBefore_row (List.getElem?_eq_getElem k.isLt)
  have image : (List.range a.pivotsOf.length).map (left.vec a.prime a.columns) =
      a.pivotsOf.map fun pivot => (a.settledPair pivot.row).1 := map_range_length holds.rows
  have rows := congrArg (List.take k) image
  rw [← List.map_take, ← List.map_take, List.take_range, Nat.min_eq_left k.isLt.le] at rows
  rw [survivors_eq_map, before, rows]

theorem HoldsImage.survives (holds : a.HoldsImage left)
    {place : Fin a.pivotsOf.length ⊕ Fin a.dependentOf.length ≃ Fin a.rows}
    (places : a.Places place) : Survives (a.grid a.prime a.rows a.columns)
      (left.grid a.prime a.pivotsOf.length a.columns) fun k => place (.inl k) where
  increasing := places.sorted.surviving
  survives_iff := by
    intro i
    rw [← places.sorted.dependent]
    obtain ⟨x, rfl⟩ := place.surjective i
    cases x <;> simp
  row_iff := by
    intro k v
    have source : (place (.inl k)).val = (a.pivotsOf.get k).row := places.kept k
    have earlier := holds.survivors_row k
    rw [← source] at earlier
    have row : (left.grid a.prime a.pivotsOf.length a.columns).row k =
        settledRow (plain (Residue a.prime) a.columns) (a.vec a.prime a.columns)
          (place (.inl k)) := by
      rw [source, List.get_eq_getElem, holds.row_eq, settledRow_fst]
    rw [row, eq_settledRow_iff, image_row_Iio, earlier, List.forall_mem_map]
    apply and_congr_right
    intro _
    constructor
    · intro reduced l before
      exact reduced l (List.mem_range.mpr before)
    · intro reduced l before
      have before := List.mem_range.mp before
      exact reduced ⟨l, before.trans k.isLt⟩ before

theorem HoldsKernel.toLists_eq (holds : a.HoldsKernel kernel) :
    kernel.toLists = a.dependentOf.map fun q => residues (a.settledPair q).2 := by
  rw [holds.shaped.toLists_eq]
  apply map_range_length
  intro t q place
  rw [holds.rows t q place]

/-- The first rows of a matrix, in any encoding. -/
structure FirstRows (a : RowMatrix e) (a' : RowMatrix f) : Prop where
  wellFormed : a'.WellFormed
  prime : a'.prime = a.prime
  columns : a'.columns = a.columns
  toLists : a'.toLists = a.toLists.take a'.rows

namespace FirstRows

theorem rows_le (first : FirstRows a a') : a'.rows ≤ a.rows := by
  have lengths := congrArg List.length first.toLists
  rw [List.length_take, length_toLists, length_toLists] at lengths
  omega

theorem shaped (first : FirstRows a a') : a'.Shaped a.prime a'.rows a.columns :=
  ⟨first.wellFormed, first.prime, rfl, first.columns⟩

theorem vec_eq (first : FirstRows a a') (wf : a.WellFormed) {i : Nat} (inside : i < a'.rows) :
    a'.vec a.prime a.columns i = a.vec a.prime a.columns i := by
  apply first.shaped.vec_of_toLists
  have row : i < a.rows := Nat.lt_of_lt_of_le inside first.rows_le
  simp [first.toLists, wf.shaped.toLists_eq, inside, row]

/-- The first rows are written with the prime and the columns of the matrix here, so that the rows
of both have one type. Their pivots and their dependent rows are the first ones of the matrix. -/
theorem trace (first : FirstRows a a') (wf : a.WellFormed) :
    ∃ rows cells, a' = ⟨a.prime, rows, a.columns, cells⟩ ∧
      pivotsOf (⟨a.prime, rows, a.columns, cells⟩ : RowMatrix f) <+: a.pivotsOf ∧
      dependentOf (⟨a.prime, rows, a.columns, cells⟩ : RowMatrix f) <+: a.dependentOf := by
  have vectors (i : Nat) (inside : i < a'.rows) := first.vec_eq wf inside
  have fewer := first.rows_le
  obtain ⟨prime, rows, columns, cells⟩ := a'
  obtain rfl : prime = a.prime := first.prime
  obtain rfl : columns = a.columns := first.columns
  have found : pivotsOf (⟨a.prime, rows, a.columns, cells⟩ : RowMatrix f) =
      pivotsBefore a.recordedRows rows := pivotsBefore_congr vectors
  have dropped : dependentOf (⟨a.prime, rows, a.columns, cells⟩ : RowMatrix f) =
      dependentBefore a.recordedRows rows := dependentBefore_congr vectors
  exact ⟨rows, cells, rfl, found ▸ pivotsBefore_isPrefix a.recordedRows fewer,
    dropped ▸ dependentBefore_isPrefix a.recordedRows fewer⟩

theorem image_toLists (first : FirstRows a a') (wf : a.WellFormed) (holds : a.HoldsImage left)
    (holds' : a'.HoldsImage left') : left'.toLists = left.toLists.take left'.rows := by
  have rows : left.toLists = (survivors (a.vec a.prime a.columns) a.rows).map residues :=
    holds.toLists_eq wf.shaped
  have rows' : left'.toLists = (survivors (a'.vec a.prime a.columns) a'.rows).map residues :=
    holds'.toLists_eq first.shaped
  have start := (survivors_isPrefix (a.vec a.prime a.columns) first.rows_le).map residues
  rw [← rows, ← survivors_congr fun i inside => first.vec_eq wf inside, ← rows',
    List.prefix_iff_eq_take, length_toLists] at start
  exact start

theorem pivots (first : FirstRows a a') (wf : a.WellFormed) (holds : a.HoldsBasis left b)
    (holds' : a'.HoldsBasis left' b') : b'.pivots = b.pivots.take a'.pivotsOf.length := by
  obtain ⟨rows, cells, rfl, start, -⟩ := first.trace wf
  rw [holds.pivots, holds'.pivots, ← PivotBasis.renumber_take]
  exact congrArg PivotBasis.renumber (List.prefix_iff_eq_take.mp start)

theorem kernel_toLists (first : FirstRows a a') (wf : a.WellFormed) (holds : a.HoldsKernel kernel)
    (holds' : a'.HoldsKernel kernel') :
    kernel'.toLists.map (· ++ List.replicate (a.rows - a'.rows) 0) =
      kernel.toLists.take kernel'.rows := by
  have vectors (i : Nat) (inside : i < a'.rows) := first.vec_eq wf inside
  have fewer := first.rows_le
  obtain ⟨rows, cells, rfl, -, start⟩ := first.trace wf
  rw [List.prefix_iff_eq_take] at start
  rw [holds.toLists_eq, holds'.toLists_eq, holds'.shaped.rows, ← List.map_take, ← start,
    List.map_map]
  apply List.map_congr_left
  intro q member
  have inside : q < rows := dependentOf_lt member
  exact (residues_widen fewer _).symm.trans
    (congrArg residues (settledRow_widen fewer vectors inside).symm)

end FirstRows

/-- An elimination keeps the rows that are no combination of the rows before them, with what is left
of each, and it starts its answers for a matrix with those for the first rows. -/
theorem split_greedy (wf : a.WellFormed) (wanted : Wanted) (pacer : Pacer) :
    Ends (a.split wanted pacer) (wanted ≠ .nothing ∧ ¬ Fits e a.rows a.rows)
      (pacer.stopRow a.rows ≠ none)
      fun state d => state.1.Shaped a.prime d.rank a.columns ∧
        d.kernel.isSome = wanted.kernel ∧ d.basis.isSome = wanted.basis ∧
        (∃ source, Survives (a.grid a.prime a.rows a.columns)
            (state.1.grid a.prime d.rank a.columns) source ∧
          ∀ b ∈ d.basis, ∀ k, b.combinations.grid a.prime d.rank a.rows k (source k) = 1 ∧
            ∀ l, source k < l → b.combinations.grid a.prime d.rank a.rows k l = 0) ∧
        ∀ {f : Encoding} (a' : RowMatrix f), FirstRows a a' → ∀ wanted' pacer',
          Ends (a'.split wanted' pacer') (wanted' ≠ .nothing ∧ ¬ Fits f a'.rows a'.rows)
            (pacer'.stopRow a'.rows ≠ none)
            fun state' d' => d'.kernel.isSome = wanted'.kernel ∧
              d'.basis.isSome = wanted'.basis ∧
              state'.1.toLists = state.1.toLists.take d'.rank ∧
              (∀ b ∈ d.basis, ∀ b' ∈ d'.basis, b'.pivots = b.pivots.take d'.rank) ∧
              ∀ kernel ∈ d.kernel, ∀ kernel' ∈ d'.kernel,
                kernel'.toLists.map (· ++ List.replicate (a.rows - a'.rows) 0) =
                  kernel.toLists.take kernel'.rows := by
  refine (split_ends wf wanted pacer).imp id id ?_
  intro state d splits
  have image := splits.image
  rw [splits.rank]
  refine ⟨image.shaped, splits.kernel_isSome, splits.basis_isSome, ?_, ?_⟩
  · obtain ⟨place, places⟩ := a.exists_places
    refine ⟨_, image.survives places, ?_⟩
    intro b present k
    have combination := (splits.basis b present).unit_combination places k
    exact ⟨combination.1, combination.2.1⟩
  · intro f a' first wanted' pacer'
    refine (split_ends first.wellFormed wanted' pacer').imp id id ?_
    intro state' d' splits'
    have image' := splits'.image
    rw [splits'.rank]
    refine ⟨splits'.kernel_isSome, splits'.basis_isSome, ?_, ?_, ?_⟩
    · rw [← image'.shaped.rows]
      exact first.image_toLists wf image image'
    · intro b present b' present'
      exact first.pivots wf (splits.basis b present) (splits'.basis b' present')
    · intro kernel present kernel' present'
      exact first.kernel_toLists wf (splits.kernel kernel present) (splits'.kernel kernel' present')

end

theorem split_greedy_of_sample :
    let p : SmallPrime := ⟨5, by decide, by decide⟩
    let sample := tabulate .batched p 4 3 fun i j => i * j + i * i
    let start := tabulate .generic p 3 3 fun i j => i * j + i * i
    FirstRows sample start ∧
    Ends (sample.split .everything .standard) (Wanted.everything ≠ .nothing ∧
        ¬ Fits .batched sample.rows sample.rows)
      (Pacer.standard.stopRow sample.rows ≠ none)
      fun state d => state.1.Shaped sample.prime d.rank sample.columns ∧
        d.kernel.isSome = true ∧ d.basis.isSome = true ∧
        (∃ source, Survives (sample.grid sample.prime sample.rows sample.columns)
            (state.1.grid sample.prime d.rank sample.columns) source ∧
          ∀ b ∈ d.basis, ∀ k,
            b.combinations.grid sample.prime d.rank sample.rows k (source k) = 1 ∧
            ∀ l, source k < l → b.combinations.grid sample.prime d.rank sample.rows k l = 0) ∧
        ∀ wanted' pacer',
          Ends (start.split wanted' pacer') (wanted' ≠ .nothing ∧ ¬ Fits .generic 3 3)
            (pacer'.stopRow 3 ≠ none)
            fun state' d' => d'.kernel.isSome = wanted'.kernel ∧
              d'.basis.isSome = wanted'.basis ∧
              state'.1.toLists = state.1.toLists.take d'.rank ∧
              (∀ b ∈ d.basis, ∀ b' ∈ d'.basis, b'.pivots = b.pivots.take d'.rank) ∧
              ∀ kernel ∈ d.kernel, ∀ kernel' ∈ d'.kernel,
                kernel'.toLists.map (· ++ [0]) = kernel.toLists.take kernel'.rows := by
  intro p sample start
  have whole : sample.Shaped p 4 3 :=
    tabulate_shaped (by decide) (by decide) (by decide) (by decide) _
  have upper : start.Shaped p 3 3 :=
    tabulate_shaped (by decide) (by decide) (by decide) (by decide) _
  have rows := congrArg RowTable.rows
    (table_tabulate (by decide) (by decide) (by decide) (by decide) _ : sample.table = _)
  have upper_rows := congrArg RowTable.rows
    (table_tabulate (by decide) (by decide) (by decide) (by decide) _ : start.table = _)
  have first : FirstRows sample start := by
    refine ⟨upper.wellFormed, upper.prime.trans whole.prime.symm,
      upper.columns.trans whole.columns.symm, ?_⟩
    have lists : start.table.rows = sample.table.rows.take 3 := by
      rw [rows, upper_rows]
      decide
    exact lists
  refine ⟨first, (split_greedy whole.wellFormed .everything .standard).imp id id ?_⟩
  rintro state d ⟨shaped, kernel, basis, greedy, starts⟩
  exact ⟨shaped, kernel, basis, greedy, starts start first⟩

end RowMatrix

end RowReduction
