import Mathlib
import RowReduction.Proofs.Endings
import RowReduction.Proofs.ObtainedBases
import RowReduction.Proofs.RowSpace
import RowReduction.Proofs.Stacks
import RowReduction.Proofs.Survivors

/-!
Reductions that are interrupted and called again. An interrupted call leaves rows that are not the
initial ones, but it loses nothing: the rows that an elimination keeps are the same, rows that are
reduced along change by elements of the row space alone, and so a call that is complete in the end
leaves what it would have left at first, however often it was interrupted before.
-/
namespace RowReduction

open EchelonForm

variable {e : Encoding} {p : SmallPrime} {k n q r s t u : Nat}

namespace RowMatrix

variable [Storage.Memory] {a a' l l' left m m' image residues answer : RowMatrix e}

/-- An interrupted split of `a` leaves `left`. -/
def SplitStops (a left : RowMatrix e) : Prop :=
  ∃ wanted pacer after, a.split wanted pacer = .ok ⟨(left, after), .error .interrupted⟩

/-- An interrupted elimination of one matrix, along which the other is reduced, leaves `left`. -/
def PreimagesStop (given left : RowMatrix e × RowMatrix e) : Prop :=
  ∃ pacer after,
    given.1.preimages given.2 pacer = .ok ⟨⟨left.1, left.2, after⟩, .error .interrupted⟩

/-- An interrupted quotient of `m` by the image leaves `left`. -/
def QuotientStops (image m left : RowMatrix e) : Prop :=
  ∃ pacer after, m.quotientBasis image pacer = .ok ⟨(left, after), .error .interrupted⟩

/-- A matrix of the same shape, of which an elimination keeps the same rows. -/
structure Resumable (p : SmallPrime) (q n : Nat) (a a' : RowMatrix e) : Prop where
  shaped : a'.Shaped p q n
  kept : survivors (a'.vec p n) q = survivors (a.vec p n) q

omit [Storage.Memory] in
theorem rowSpan_grid (a : RowMatrix e) (p : SmallPrime) (q n : Nat) :
    rowSpan (a.grid p q n) = Submodule.span (Residue p) {v | v ∈ survivors (a.vec p n) q} := by
  rw [span_survivors, rowSpan, range_row]

theorem Resumable.refl (h : a.Shaped p q n) : Resumable p q n a a := ⟨h, rfl⟩

theorem Resumable.trans {a'' : RowMatrix e} (first : Resumable p q n a a')
    (second : Resumable p q n a' a'') : Resumable p q n a a'' :=
  ⟨second.shaped, second.kept.trans first.kept⟩

theorem Resumable.rowSpan_eq (resumable : Resumable p q n a a') :
    rowSpan (a'.grid p q n) = rowSpan (a.grid p q n) := by
  rw [rowSpan_grid, rowSpan_grid, resumable.kept]

theorem HoldsVisited.resumable {i : Nat} (visited : a.HoldsVisited i left) (inside : i ≤ a.rows)
    (h : a.Shaped p q n) : Resumable p q n a left := by
  obtain ⟨-, rfl, rfl, rfl⟩ := h
  exact ⟨visited.shaped, visited.survivors_eq inside⟩

/-- Rows of the same shape that changed by elements of a space. -/
structure Moved (space : Submodule (Residue p) (Fin n → Residue p)) (r : Nat)
    (l l' : RowMatrix e) : Prop where
  shaped : l'.Shaped p r n
  change : ∀ j, j < r → l'.vec p n j - l.vec p n j ∈ space

variable {space : Submodule (Residue p) (Fin n → Residue p)}

theorem Moved.refl (h : l.Shaped p r n) : Moved space r l l := by
  refine ⟨h, ?_⟩
  intro j _
  rw [sub_self]
  exact Submodule.zero_mem _

theorem Moved.trans {l'' : RowMatrix e} (first : Moved space r l l')
    (second : Moved space r l' l'') : Moved space r l l'' := by
  refine ⟨second.shaped, ?_⟩
  intro j hj
  rw [← sub_add_sub_cancel]
  exact Submodule.add_mem _ (second.change j hj) (first.change j hj)

/-! Eliminations, and rows that are reduced along. -/

theorem SplitStops.resumable (stops : SplitStops a left) (h : a.Shaped p q n) :
    Resumable p q n a left := by
  obtain ⟨wanted, pacer, after, call⟩ := stops
  cases split_end h.wellFormed call with
  | interrupted inside visited => exact visited.resumable inside h

theorem split_attempts (h : a.Shaped p q n) (attempts : Relation.ReflTransGen SplitStops a a') :
    Resumable p q n a a' := by
  induction attempts with
  | refl => exact .refl h
  | tail _ stops ih => exact ih.trans (stops.resumable ih.shaped)

theorem Resumable.split_ends (resumable : Resumable p q n a a') (h : a.Shaped p q n)
    (wanted wanted' : Wanted) (pacer pacer' : Pacer) :
    Ends (a'.split wanted' pacer') (wanted' ≠ .nothing ∧ ¬ Fits e q q) (pacer'.stopRow q ≠ none)
      fun state' d' =>
        Ends (a.split wanted pacer) (wanted ≠ .nothing ∧ ¬ Fits e q q) (pacer.stopRow q ≠ none)
          fun state d => state'.1 = state.1 ∧ d'.rank = d.rank := by
  have again := RowMatrix.split_ends resumable.shaped.wellFormed wanted' pacer'
  have once := RowMatrix.split_ends h.wellFormed wanted pacer
  rw [resumable.shaped.rows] at again
  rw [h.rows] at once
  refine again.imp id id fun state' d' splits' => once.imp id id fun state d splits => ?_
  have same := splits.image.eq_of_survivors splits'.image h resumable.shaped resumable.kept
  refine ⟨same, ?_⟩
  rw [splits'.rank, splits.rank, ← splits'.image.shaped.rows, ← splits.image.shaped.rows, same]

/-- A row is reduced by the rows that are kept of those before. -/
theorem ReducesBefore.residue_eq {i : Nat} (reduces : a.ReducesBefore l residues answer r i)
    (h : a.Shaped p q n) {j : Nat} (hj : j < r) : residues.vec p n j =
      reduce (plain (Residue p) n) (survivors (a.vec p n) i) (l.vec p n j) := by
  obtain ⟨-, rfl, rfl, rfl⟩ := h
  rw [reduce_survivors, ← settled_fst (m := a.rows)]
  have pair := congrArg Prod.fst (reduces.pairs j hj)
  exact pair.trans (reduce_map (Pair.vector a.prime a.columns a.rows)
    (plain (Residue a.prime) a.columns) (Pair.vector a.prime a.columns a.rows) (fun _ => rfl) _
    (l.vec a.prime a.columns j, 0))

/-- The matrix is resumable, and the rows reduced along changed by elements of its row space. -/
structure Lifts (p : SmallPrime) (q r n : Nat) (given left : RowMatrix e × RowMatrix e) : Prop where
  matrix : Resumable p q n given.1 left.1
  rows : Moved (rowSpan (given.1.grid p q n)) r given.2 left.2

theorem PreimagesStop.lifts (stops : PreimagesStop (a, l) (a', l')) (ha : a.Shaped p q n)
    (hl : l.Shaped p r n) : Lifts p q r n (a, l) (a', l') := by
  obtain ⟨pacer, after, call⟩ := stops
  cases preimages_end ha.wellFormed hl.wellFormed call with
  | @interrupted row _ _ subtracted inside visited reduces =>
    have rows := hl.rows
    refine ⟨visited.resumable inside ha, ?_, ?_⟩
    · obtain ⟨-, rfl, rfl, rfl⟩ := ha
      exact rows ▸ reduces.residues_shaped
    · intro j hj
      rw [ha.rows] at inside
      rw [reduces.residue_eq ha (rows ▸ hj), reduce_survivors, rowSpan, range_row]
      have change := (reduce_settled_reduced (a.vec p n) row (l.vec p n j)).1
      exact Submodule.span_mono (Set.image_mono (Set.Iio_subset_Iio inside)) change

theorem preimages_attempts {given left : RowMatrix e × RowMatrix e} (ha : given.1.Shaped p q n)
    (hl : given.2.Shaped p r n) (attempts : Relation.ReflTransGen PreimagesStop given left) :
    Lifts p q r n given left := by
  induction attempts with
  | refl => exact ⟨.refl ha, .refl hl⟩
  | tail _ stops ih =>
    have next := stops.lifts ih.matrix.shaped ih.rows.shaped
    have rows := next.rows
    rw [ih.matrix.rowSpan_eq] at rows
    exact ⟨ih.matrix.trans next.matrix, ih.rows.trans rows⟩

theorem Lifts.preimages_end (lifts : Lifts p q r n (a, l) (a', l')) (ha : a.Shaped p q n)
    (hl : l.Shaped p r n) (pacer pacer' : Pacer) :
    Ends (a'.preimages l' pacer') (¬ (Fits e r q ∧ Fits e q q)) (pacer'.stopRow q ≠ none)
      fun state' _ =>
        Ends (a.preimages l pacer) (¬ (Fits e r q ∧ Fits e q q)) (pacer.stopRow q ≠ none)
          fun state _ => state'.matrix = state.matrix ∧ state'.residues = state.residues := by
  have ends {a l : RowMatrix e} (ha : a.Shaped p q n) (hl : l.Shaped p r n) (pacer : Pacer) :
      Ends (a.preimages l pacer) (¬ (Fits e r q ∧ Fits e q q)) (pacer.stopRow q ≠ none)
        fun state answer => a.HoldsImage state.matrix ∧ state.residues.Shaped p r n ∧
          ∀ j, j < r → state.residues.vec p n j =
            reduce (plain (Residue p) n) (survivors (a.vec p n) q) (l.vec p n j) := by
    have shaped := ha
    obtain ⟨wf, rfl, rfl, rfl⟩ := ha
    refine (preimages_ends wf hl pacer).imp id id ?_
    rintro state answer ⟨holds, reduces⟩
    exact ⟨holds, reduces.residues_shaped,
      fun j hj => (reducesBefore_rows.mpr reduces).residue_eq shaped hj⟩
  refine (ends lifts.matrix.shaped lifts.rows.shaped pacer').imp id id ?_
  rintro state' - ⟨holds', shaped', rows'⟩
  refine (ends ha hl pacer).imp id id ?_
  rintro state - ⟨holds, shaped, rows⟩
  refine ⟨holds.eq_of_survivors holds' ha lifts.matrix.shaped lifts.matrix.kept,
    shaped'.ext shaped ?_⟩
  intro j hj
  have change := lifts.rows.change j hj
  rw [rowSpan, range_row] at change
  rw [rows' j hj, rows j hj, lifts.matrix.kept]
  exact reduce_survivors_congr change

end RowMatrix

namespace PivotBasis

variable [Storage.Memory] {b : PivotBasis (RowMatrix e)} {l l' left : RowMatrix e}

/-- An interrupted reduction by the pivots of a basis leaves `left`. -/
def ReplayStops (b : PivotBasis (RowMatrix e)) (l left : RowMatrix e) : Prop :=
  ∃ pacer after, b.preimages l pacer = .ok ⟨(left, after), .error .interrupted⟩

theorem ReplayStops.moved (stops : b.ReplayStops l left) (hb : b.Shaped p k n s)
    (hl : l.Shaped p r n) : RowMatrix.Moved (rowSpan (b.image.grid p k n)) r l left := by
  obtain ⟨pacer, after, call⟩ := stops
  cases preimages_end hb hl call with
  | interrupted inside replays =>
    refine ⟨replays.shaped.residues, ?_⟩
    intro j hj
    rw [replays.residue_eq hj]
    exact RowMatrix.reduce_image_sub_mem inside _

theorem replay_attempts (hb : b.Shaped p k n s) (hl : l.Shaped p r n)
    (attempts : Relation.ReflTransGen b.ReplayStops l l') :
    RowMatrix.Moved (rowSpan (b.image.grid p k n)) r l l' := by
  induction attempts with
  | refl => exact .refl hl
  | tail _ stops ih => exact ih.trans (stops.moved hb ih.shaped)

theorem replay_ends_alike (moved : RowMatrix.Moved (rowSpan (b.image.grid p k n)) r l l')
    (hb : b.Shaped p k n s) (echelon : EchelonWithZeros (b.image.grid p k n))
    (hl : l.Shaped p r n) (pacer pacer' : Pacer) :
    Ends (b.preimages l' pacer') (¬ Fits e r s) (pacer'.stopRow k ≠ none)
      fun state' _ => Ends (b.preimages l pacer) (¬ Fits e r s) (pacer.stopRow k ≠ none)
        fun state _ => state'.1 = state.1 := by
  refine (PivotBasis.preimages_ends hb moved.shaped pacer').imp id id ?_
  intro state' answer' replays'
  refine (PivotBasis.preimages_ends hb hl pacer).imp id id ?_
  intro state answer replays
  apply replays'.shaped.residues.ext replays.shaped.residues
  intro j hj
  have residue' := replays'.residue_eq hj
  have residue := replays.residue_eq hj
  rw [RowMatrix.reduce_image_congr echelon (moved.change j hj)] at residue'
  exact residue'.trans residue.symm

end PivotBasis

namespace RowMatrix

section

variable [Storage.Memory] {a a' l l' left m m' image reduced : RowMatrix e}
  {b : PivotBasis (RowMatrix e)}

/-! Quotients by an image in echelon form. -/

/-- The vectors that the first pass of a quotient makes of the rows. -/
abbrev reducedRows (image : RowMatrix e) (p : SmallPrime) (u n : Nat) (m : RowMatrix e) (j : Nat) :
    Fin n → Residue p :=
  reduce (plain (Residue p) n) ((List.range u).map (image.vec p n)) (m.vec p n j)

/-- A matrix of the same shape that spans the same together with the image, and of whose reduced
rows an elimination keeps the same. -/
structure Quotients (image : RowMatrix e) (p : SmallPrime) (u t n : Nat) (m m' : RowMatrix e) :
    Prop where
  shaped : m'.Shaped p t n
  sup_eq : rowSpan (m'.grid p t n) ⊔ rowSpan (image.grid p u n) =
    rowSpan (m.grid p t n) ⊔ rowSpan (image.grid p u n)
  kept : survivors (reducedRows image p u n m') t = survivors (reducedRows image p u n m) t

/-- Rows that are reduced by the whole image vanish in its leading columns, and so do the rows that
an elimination makes of them: the image does not change these any more. -/
theorem Resumable.reducedRows_eq (resumable : Resumable p t n reduced left)
    (echelon : EchelonWithZeros (image.grid p u n))
    (rows : ∀ j, j < t → reduced.vec p n j = reducedRows image p u n m j) {j : Nat} (hj : j < t) :
    reducedRows image p u n left j = left.vec p n j := by
  have isEchelon := echelon.isEchelon
  rw [ofFn_row] at isEchelon
  apply reduce_of_zero
  intro v member c leads
  have zero (i : Fin t) : reduced.grid p t n i c = 0 := by
    have entry := congrFun (rows i i.isLt) c
    exact entry.trans (view_reduce_lead isEchelon member leads (m.vec p n i))
  have row : left.vec p n j ∈ rowSpan (left.grid p t n) :=
    Submodule.subset_span ⟨⟨j, hj⟩, rfl⟩
  rw [resumable.rowSpan_eq] at row
  exact column_of_mem_rowSpan zero row

theorem QuotientStops.quotients (stops : QuotientStops image m left) (h : m.Shaped p t n)
    (hi : image.Shaped p u n) (echelon : EchelonWithZeros (image.grid p u n)) :
    Quotients image p u t n m left := by
  obtain ⟨pacer, after, call⟩ := stops
  have count := hi.rows
  obtain ⟨wf, rfl, rfl, rfl⟩ := h
  cases quotientBasis_end wf hi.wellFormed call with
  | stoppedFirst inside result =>
    rw [count] at inside
    have change (j : Nat) (hj : j < m.rows) : left.vec m.prime m.columns j -
        m.vec m.prime m.columns j ∈ rowSpan (image.grid m.prime u m.columns) := by
      rw [result.rows j hj]
      exact reduce_image_sub_mem inside _
    refine ⟨result.shaped, sup_rowSpan_of_change fun j => change j j.isLt, ?_⟩
    exact survivors_congr fun j hj => reduce_image_congr echelon (change j hj)
  | @stoppedSecond row reduced _ _ inside result visited =>
    rw [count] at result
    have shaped := result.shaped
    have resumable := visited.resumable (shaped.rows.symm ▸ inside) shaped
    refine ⟨resumable.shaped, ?_, ?_⟩
    · rw [resumable.rowSpan_eq]
      apply sup_rowSpan_of_change
      intro j
      have row : (reduced.grid m.prime m.rows m.columns).row j =
          reducedRows image m.prime u m.columns m j := result.rows j j.isLt
      rw [row]
      exact reduce_image_sub_mem (Nat.le_refl u) _
    · rw [survivors_congr fun j hj => resumable.reducedRows_eq echelon result.rows hj,
        resumable.kept]
      exact survivors_congr result.rows

theorem quotient_attempts (h : m.Shaped p t n) (hi : image.Shaped p u n)
    (echelon : EchelonWithZeros (image.grid p u n))
    (attempts : Relation.ReflTransGen (QuotientStops image) m m') :
    Quotients image p u t n m m' := by
  induction attempts with
  | refl => exact ⟨h, rfl, rfl⟩
  | tail _ stops ih =>
    have next := stops.quotients ih.shaped hi echelon
    exact ⟨next.shaped, next.sup_eq.trans ih.sup_eq, next.kept.trans ih.kept⟩

theorem Quotients.quotientBasis_ends (quotients : Quotients image p u t n m m')
    (h : m.Shaped p t n) (hi : image.Shaped p u n) (pacer pacer' : Pacer) :
    Ends (m'.quotientBasis image pacer') False
      (pacer'.stopRow u ≠ none ∨ (pacer'.afterRows u).endPass.stopRow t ≠ none)
      fun state' _ => Ends (m.quotientBasis image pacer) False
        (pacer.stopRow u ≠ none ∨ (pacer.afterRows u).endPass.stopRow t ≠ none)
        fun state _ => state'.1 = state.1 := by
  have ends {m : RowMatrix e} (h : m.Shaped p t n) (pacer : Pacer) :
      Ends (m.quotientBasis image pacer) False
        (pacer.stopRow u ≠ none ∨ (pacer.afterRows u).endPass.stopRow t ≠ none)
        fun state _ => ∃ reduced : RowMatrix e, reduced.Shaped p t n ∧
          reduced.HoldsImage state.1 ∧
          survivors (reduced.vec p n) t = survivors (reducedRows image p u n m) t := by
    obtain ⟨wf, rfl, rfl, rfl⟩ := h
    refine (RowMatrix.quotientBasis_ends wf hi pacer).imp id id ?_
    rintro state - ⟨reduced, result, holds⟩
    exact ⟨reduced, result.shaped, holds, survivors_congr result.rows⟩
  refine (ends quotients.shaped pacer').imp id id ?_
  rintro state' - ⟨reduced', shaped', holds', same'⟩
  refine (ends h pacer).imp id id ?_
  rintro state - ⟨reduced, shaped, holds, same⟩
  exact holds.eq_of_survivors holds' shaped shaped'
    (same'.trans (quotients.kept.trans same.symm))

/-- Whatever attempts of a reduction were interrupted, at any rows and with any pacers, a call that
is complete in the end leaves the same image, residues or quotient as if it were the first one. On
the way no matrix changes its shape, and no row changes by more than an element of the row space. -/
theorem attempts_resume (ha : a.Shaped p q n) (hl : l.Shaped p r n) (hb : b.Shaped p k n s)
    (basis_echelon : EchelonWithZeros (b.image.grid p k n)) (hm : m.Shaped p t n)
    (hi : image.Shaped p u n) (image_echelon : EchelonWithZeros (image.grid p u n)) :
    (∀ a', Relation.ReflTransGen SplitStops a a' →
      a'.Shaped p q n ∧ rowSpan (a'.grid p q n) = rowSpan (a.grid p q n) ∧
      ∀ wanted wanted' pacer pacer',
        Ends (a'.split wanted' pacer') (wanted' ≠ .nothing ∧ ¬ Fits e q q)
          (pacer'.stopRow q ≠ none)
          fun state' d' =>
            Ends (a.split wanted pacer) (wanted ≠ .nothing ∧ ¬ Fits e q q)
              (pacer.stopRow q ≠ none)
              fun state d => state'.1 = state.1 ∧ d'.rank = d.rank) ∧
    (∀ a' l', Relation.ReflTransGen PreimagesStop (a, l) (a', l') →
      a'.Shaped p q n ∧ rowSpan (a'.grid p q n) = rowSpan (a.grid p q n) ∧
      l'.Shaped p r n ∧
      (∀ j, j < r → l'.vec p n j - l.vec p n j ∈ rowSpan (a.grid p q n)) ∧
      ∀ pacer pacer',
        Ends (a'.preimages l' pacer') (¬ (Fits e r q ∧ Fits e q q)) (pacer'.stopRow q ≠ none)
          fun state' _ =>
            Ends (a.preimages l pacer) (¬ (Fits e r q ∧ Fits e q q)) (pacer.stopRow q ≠ none)
              fun state _ => state'.matrix = state.matrix ∧ state'.residues = state.residues) ∧
    (∀ l', Relation.ReflTransGen b.ReplayStops l l' →
      l'.Shaped p r n ∧
      (∀ j, j < r → l'.vec p n j - l.vec p n j ∈ rowSpan (b.image.grid p k n)) ∧
      ∀ pacer pacer',
        Ends (b.preimages l' pacer') (¬ Fits e r s) (pacer'.stopRow k ≠ none)
          fun state' _ => Ends (b.preimages l pacer) (¬ Fits e r s) (pacer.stopRow k ≠ none)
            fun state _ => state'.1 = state.1) ∧
    ∀ m', Relation.ReflTransGen (QuotientStops image) m m' →
      m'.Shaped p t n ∧
      rowSpan (m'.grid p t n) ⊔ rowSpan (image.grid p u n) =
        rowSpan (m.grid p t n) ⊔ rowSpan (image.grid p u n) ∧
      ∀ pacer pacer',
        Ends (m'.quotientBasis image pacer') False
          (pacer'.stopRow u ≠ none ∨ (pacer'.afterRows u).endPass.stopRow t ≠ none)
          fun state' _ => Ends (m.quotientBasis image pacer) False
            (pacer.stopRow u ≠ none ∨ (pacer.afterRows u).endPass.stopRow t ≠ none)
            fun state _ => state'.1 = state.1 := by
  refine ⟨?split, ?preimages, ?replay, ?quotient⟩
  case split =>
    intro a' attempts
    have resumable := split_attempts ha attempts
    exact ⟨resumable.shaped, resumable.rowSpan_eq, resumable.split_ends ha⟩
  case preimages =>
    intro a' l' attempts
    have lifts : Lifts p q r n (a, l) (a', l') := preimages_attempts ha hl attempts
    exact ⟨lifts.matrix.shaped, lifts.matrix.rowSpan_eq, lifts.rows.shaped, lifts.rows.change,
      lifts.preimages_end ha hl⟩
  case replay =>
    intro l' attempts
    have moved := PivotBasis.replay_attempts hb hl attempts
    exact ⟨moved.shaped, moved.change, PivotBasis.replay_ends_alike moved hb basis_echelon hl⟩
  case quotient =>
    intro m' attempts
    have quotients := quotient_attempts hm hi image_echelon attempts
    exact ⟨quotients.shaped, quotients.sup_eq, quotients.quotientBasis_ends hm hi⟩

end

/-- Every reduction is interrupted here when it is about to visit its second row. -/
theorem attempts_resume_of_sample :
    let a := tabulate .packed .two 3 2 fun i j => i * j + 1
    let l := tabulate .packed .two 2 2 fun i j => i + j
    (∃ a', SplitStops a a' ∧ rowSpan (a'.grid .two 3 2) = rowSpan (a.grid .two 3 2) ∧
      ∀ wanted wanted' pacer pacer',
        Ends (a'.split wanted' pacer') (wanted' ≠ .nothing ∧ ¬ Fits .packed 3 3)
          (pacer'.stopRow 3 ≠ none)
          fun state' d' =>
            Ends (a.split wanted pacer) (wanted ≠ .nothing ∧ ¬ Fits .packed 3 3)
              (pacer.stopRow 3 ≠ none)
              fun state d => state'.1 = state.1 ∧ d'.rank = d.rank) ∧
    (∃ a' l', PreimagesStop (a, l) (a', l') ∧
      ∀ pacer pacer',
        Ends (a'.preimages l' pacer') (¬ (Fits .packed 2 3 ∧ Fits .packed 3 3))
          (pacer'.stopRow 3 ≠ none)
          fun state' _ =>
            Ends (a.preimages l pacer) (¬ (Fits .packed 2 3 ∧ Fits .packed 3 3))
              (pacer.stopRow 3 ≠ none)
              fun state _ => state'.matrix = state.matrix ∧ state'.residues = state.residues) ∧
    (∃ l', exchange.ReplayStops l l' ∧
      ∀ pacer pacer',
        Ends (exchange.preimages l' pacer') (¬ Fits .packed 2 4) (pacer'.stopRow 2 ≠ none)
          fun state' _ => Ends (exchange.preimages l pacer) (¬ Fits .packed 2 4) (pacer.stopRow 2 ≠ none)
            fun state _ => state'.1 = state.1) ∧
    ∃ m', QuotientStops exchange.image a m' ∧
      ∀ pacer pacer',
        Ends (m'.quotientBasis exchange.image pacer') False
          (pacer'.stopRow 2 ≠ none ∨ (pacer'.afterRows 2).endPass.stopRow 3 ≠ none)
          fun state' _ => Ends (a.quotientBasis exchange.image pacer) False
            (pacer.stopRow 2 ≠ none ∨ (pacer.afterRows 2).endPass.stopRow 3 ≠ none)
            fun state _ => state'.1 = state.1 := by
  intro a l
  have ha : a.Shaped .two 3 2 :=
    tabulate_shaped (by decide) (by decide) (by decide) (by decide) _
  have hl : l.Shaped .two 2 2 :=
    tabulate_shaped (by decide) (by decide) (by decide) (by decide) _
  obtain ⟨splits, lifts, replays, quotients⟩ :=
    attempts_resume ha hl exchange_shaped exchange_echelon ha exchange_shaped.image
      exchange_echelon
  let pacer := ((Pacer.ofShift 0).withFlag ⟨false⟩).withListener fun _ _ => true
  have stop : pacer.stopRow 3 = some 1 := by decide +kernel
  have stop' : pacer.stopRow 2 = some 1 := by decide +kernel
  have split_stop : pacer.stopRow a.rows = some 1 := ha.rows.symm ▸ stop
  have square : Fits .packed a.rows a.rows := ha.rows.symm ▸ by decide
  have fits : Fits .packed 2 a.rows := ha.rows.symm ▸ by decide
  have along : l.Shaped a.prime 2 a.columns := by
    rw [ha.prime, ha.columns]
    exact hl
  have divisor : exchange.image.Shaped a.prime 2 a.columns := by
    rw [ha.prime, ha.columns]
    exact exchange_shaped.image
  have enough (_ : Wanted.everything ≠ .nothing) : Fits .packed a.rows a.rows := square
  obtain ⟨a₁, split, -⟩ := split_interrupted ha.wellFormed enough split_stop
  obtain ⟨a₂, l₂, -, lift, -⟩ :=
    preimages_interrupted ha.wellFormed along fits square split_stop
  obtain ⟨state, replay, -⟩ := PivotBasis.preimages_interrupted exchange_shaped hl (by decide) stop'
  obtain ⟨m', quotient, -⟩ := quotientBasis_stopped_first ha.wellFormed divisor stop'
  have first : SplitStops a a₁ := ⟨_, _, _, split⟩
  have second : PreimagesStop (a, l) (a₂, l₂) := ⟨_, _, lift⟩
  have third : exchange.ReplayStops l state.residues := ⟨_, _, replay⟩
  have fourth : QuotientStops exchange.image a m' := ⟨_, _, quotient⟩
  refine ⟨⟨a₁, first, (splits a₁ (.single first)).2⟩,
    ⟨a₂, l₂, second, (lifts a₂ l₂ (.single second)).2.2.2.2⟩,
    ⟨state.residues, third, (replays state.residues (.single third)).2.2⟩,
    ⟨m', fourth, (quotients m' (.single fourth)).2.2⟩⟩

/-- A basis can be read from bytes although its rows are not in echelon form, because every row is
checked by itself. Reducing by it twice is not the same as reducing once, and an interrupted call
can come as far as the whole first time. -/
theorem resumed_replay_differs :
    let b : EncodedBasis := ⟨.generic, refilling⟩
    let l := tabulate .generic .two 1 3 fun _ j => if j = 0 then 1 else 0
    let l' := tabulate .generic .two 1 3 fun _ j => if j = 1 then 1 else 0
    let zero := tabulate .generic .two 1 3 fun _ _ => 0
    EncodedBasis.decode b.encode = pure (b, []) ∧ refilling.ReplayStops l l' ∧
      refilling.preimages l .standard = .ok ⟨(l', .standard), .ok l'⟩ ∧
      refilling.preimages l' .standard = .ok ⟨(zero, .standard), .ok l⟩ ∧ l' ≠ zero :=
  ⟨rfl, ⟨((Pacer.ofShift 0).withFlag ⟨false⟩).withListener fun number _ => number == 2, _, rfl⟩,
    rfl, rfl, by decide +kernel⟩

end RowMatrix

end RowReduction
