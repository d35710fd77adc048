import Mathlib
import RowReduction.Proofs.Quotient
import RowReduction.Proofs.Replay

/-!
The reductions do not depend on the encoding. All that a call leaves and answers has been described
through rows as vectors, and vectors do not show how they are stored. So the same rows in two
encodings have the same pivots and settled rows, and every matrix that comes out holds the same
entries, also if the calls were interrupted on the way.
-/
namespace RowReduction

open EchelonForm

section

variable [Storage.Memory] {e f : Encoding} {p : SmallPrime} {n r : Nat}

namespace RowMatrix

/-- Two matrices have the same shape and entries, and converting the first one gives the second. -/
structure Same (m : RowMatrix e) (m' : RowMatrix f) : Prop where
  wellFormed : m.WellFormed
  wellFormed' : m'.WellFormed
  prime : m'.prime = m.prime
  rows : m'.rows = m.rows
  columns : m'.columns = m.columns
  entries : ∀ i j, i < m.rows → j < m.columns → m'.read i j = m.read i j
  converted : m.recode f = pure m'

theorem Shaped.same {m : RowMatrix e} {m' : RowMatrix f} (h : m.Shaped p r n)
    (h' : m'.Shaped p r n) (vectors : ∀ i, i < r → m'.vec p n i = m.vec p n i) : Same m m' where
  wellFormed := h.wellFormed
  wellFormed' := h'.wellFormed
  prime := h'.prime.trans h.prime.symm
  rows := h'.rows.trans h.rows.symm
  columns := h'.columns.trans h.columns.symm
  entries := by
    intro i j hi hj
    rw [h.rows] at hi
    rw [h.columns] at hj
    have entry := congrArg ZMod.val (congrFun (vectors i hi) ⟨j, hj⟩)
    rwa [h.val_vec hi, h'.val_vec hi] at entry
  converted := by
    obtain ⟨copy, converted, shaped, values⟩ := h.recode_ok h'.supported h'.fits
    have exact_copy : copy = m' := by
      apply shaped.ext h'
      intro i hi
      exact (values i hi).trans (vectors i hi).symm
    rw [converted, exact_copy]

theorem WellFormed.same {m : RowMatrix e} (wf : m.WellFormed) : Same m m :=
  wf.shaped.same wf.shaped fun _ _ => rfl

/-- Two matrices are the same if their rows are given by the same list. -/
theorem same_of_list {α : Type} {list : List α} {v : α → Fin n → Residue p} {m : RowMatrix e}
    {m' : RowMatrix f} (h : m.Shaped p list.length n) (h' : m'.Shaped p list.length n)
    (rows : ∀ k x, list[k]? = some x → m.vec p n k = v x)
    (rows' : ∀ k x, list[k]? = some x → m'.vec p n k = v x) : Same m m' := by
  refine h.same h' ?_
  intro k inside
  have place := List.getElem?_eq_getElem inside
  exact (rows' k _ place).trans (rows k _ place).symm

/-- There are no entries behind the last row. -/
theorem WellFormed.read_of_rows_le {m : RowMatrix e} (wf : m.WellFormed) {i : Nat}
    (behind : m.rows ≤ i) (j : Nat) : m.read i j = 0 := by
  have position : m.cells.size ≤ i * m.rowCells + j / e.lanes := by
    rw [wf.size]
    exact Nat.le_trans (Nat.mul_le_mul_right m.rowCells behind) (Nat.le_add_right _ _)
  rw [read, Array.getD_eq_getD_getElem?, Array.getElem?_eq_none position, Option.getD_none]
  exact Row.readLane_zeroCell e _

namespace Same

variable {a left : RowMatrix e} {a' left' : RowMatrix f}

theorem shaped (same : Same a a') (h : a.Shaped p r n) : a'.Shaped p r n :=
  ⟨same.wellFormed', same.prime.trans h.prime, same.rows.trans h.rows,
    same.columns.trans h.columns⟩

theorem vec_eq (same : Same a a') (h : a.Shaped p r n) : a'.vec p n = a.vec p n := by
  funext i j
  have entry : a'.read i j = a.read i j := by
    by_cases inside : i < r
    · exact same.entries i j (h.rows ▸ inside) (h.columns ▸ j.isLt)
    · have behind : a.rows ≤ i := h.rows ▸ Nat.le_of_not_lt inside
      rw [h.wellFormed.read_of_rows_le behind,
        same.wellFormed'.read_of_rows_le (same.rows ▸ behind)]
  exact congrArg (Nat.cast (R := Residue p)) entry

/-- The second matrix is written with the shape of the first one here, so that the rows of both have
one type. They have the same pivots and dependent rows. -/
theorem trace (same : Same a a') :
    ∃ cells, a' = ⟨a.prime, a.rows, a.columns, cells⟩ ∧
      recordedRows (⟨a.prime, a.rows, a.columns, cells⟩ : RowMatrix f) = a.recordedRows ∧
      pivotsOf (⟨a.prime, a.rows, a.columns, cells⟩ : RowMatrix f) = a.pivotsOf ∧
      dependentOf (⟨a.prime, a.rows, a.columns, cells⟩ : RowMatrix f) = a.dependentOf := by
  have vectors := same.vec_eq same.wellFormed.shaped
  obtain ⟨prime, rows, columns, cells⟩ := a'
  obtain rfl : prime = a.prime := same.prime
  obtain rfl : rows = a.rows := same.rows
  obtain rfl : columns = a.columns := same.columns
  have records : recordedRows (⟨a.prime, a.rows, a.columns, cells⟩ : RowMatrix f) =
      a.recordedRows := by
    funext j
    exact Prod.ext (congrFun vectors j) rfl
  exact ⟨cells, rfl, records, congrArg (fun rows => pivotsBefore rows a.rows) records,
    congrArg (fun rows => dependentBefore rows a.rows) records⟩

theorem image (same : Same a a') (holds : a.HoldsImage left) (holds' : a'.HoldsImage left') :
    Same left left' := by
  obtain ⟨cells, rfl, records, pivots, -⟩ := same.trace
  have shaped' := holds'.shaped
  have rows' := holds'.rows
  simp only [pivots, settledPair, records] at shaped' rows'
  exact same_of_list holds.shaped shaped' holds.rows rows'

theorem visited (same : Same a a') {i : Nat} (holds : a.HoldsVisited i left)
    (holds' : a'.HoldsVisited i left') : Same left left' := by
  obtain ⟨cells, rfl, records, -⟩ := same.trace
  refine holds.shaped.same holds'.shaped ?_
  intro q inside
  have kept := holds'.kept q
  have others := holds'.others q
  simp only [settledPair, records] at kept others
  by_cases behind : (pivotsBefore a.recordedRows i).length ≤ q
  · exact (others behind inside).trans (holds.others q behind inside).symm
  · have place := List.getElem?_eq_getElem (Nat.lt_of_not_le behind)
    exact (kept _ place).trans (holds.kept q _ place).symm

theorem kernel (same : Same a a') {kernel : RowMatrix e} {kernel' : RowMatrix f}
    (holds : a.HoldsKernel kernel) (holds' : a'.HoldsKernel kernel') : Same kernel kernel' := by
  obtain ⟨cells, rfl, records, -, dependent⟩ := same.trace
  have shaped' := holds'.shaped
  have rows' := holds'.rows
  simp only [dependent, settledPair, records] at shaped' rows'
  exact same_of_list holds.shaped shaped' holds.rows rows'

theorem dual (same : Same a a') {dual : RowMatrix e} {dual' : RowMatrix f}
    (holds : a.HoldsDual dual) (holds' : a'.HoldsDual dual') : Same dual dual' := by
  obtain ⟨cells, rfl, -, -, dependent⟩ := same.trace
  have shaped' := holds'.shaped
  have rows' := holds'.rows
  simp only [dependent] at shaped' rows'
  exact same_of_list holds.shaped shaped' holds.rows rows'

end Same

end RowMatrix

/-- Bases that hold the same matrices and the same pivots. -/
structure PivotBasis.Same (b : PivotBasis (RowMatrix e)) (b' : PivotBasis (RowMatrix f)) :
    Prop where
  image : b.image.Same b'.image
  combinations : b.combinations.Same b'.combinations
  pivots : b'.pivots = b.pivots

structure Splitting.Same (d : Splitting (RowMatrix e)) (d' : Splitting (RowMatrix f)) : Prop where
  rank : d'.rank = d.rank
  kernel : Option.Rel RowMatrix.Same d.kernel d'.kernel
  dual : Option.Rel RowMatrix.Same d.dual d'.dual
  basis : Option.Rel PivotBasis.Same d.basis d'.basis

theorem PivotBasis.Same.converted {b : PivotBasis (RowMatrix e)} {b' : PivotBasis (RowMatrix f)}
    (same : b.Same b') : b.mapBuild (RowMatrix.recode f) = pure b' := by
  exact mapBuild_eq_pure.mpr ⟨same.image.converted, same.combinations.converted, same.pivots⟩

omit [Storage.Memory] in
theorem mapM_of_rel {α β : Type} {R : α → β → Prop} {convert : α → Build β}
    (converted : ∀ x y, R x y → convert x = pure y) {o : Option α} {o' : Option β}
    (related : Option.Rel R o o') : o.mapM convert = pure o' := by
  cases related with
  | none => rfl
  | some pair =>
    simp only [Option.mapM_some, converted _ _ pair]
    rfl

/-- Converting every output of a split gives the outputs of the other one. -/
theorem Splitting.Same.converted {d : Splitting (RowMatrix e)} {d' : Splitting (RowMatrix f)}
    (same : d.Same d') : d.mapBuild (RowMatrix.recode f) = pure d' := by
  have kernel := mapM_of_rel (fun _ _ pair => RowMatrix.Same.converted pair) same.kernel
  have dual := mapM_of_rel (fun _ _ pair => RowMatrix.Same.converted pair) same.dual
  have basis := mapM_of_rel (fun _ _ pair => PivotBasis.Same.converted pair) same.basis
  simp only [mapBuild, kernel, dual, basis, pure_bind, ← same.rank]

omit [Storage.Memory] in
theorem rel_of_isSome {α β : Type} {R : α → β → Prop} {o : Option α} {o' : Option β}
    (present : o'.isSome = o.isSome) (related : ∀ x ∈ o, ∀ y ∈ o', R x y) : Option.Rel R o o' := by
  cases o with
  | none =>
    cases o' with
    | none => exact .none
    | some y => cases present
  | some x =>
    cases o' with
    | none => cases present
    | some y => exact .some (related x rfl y rfl)

namespace RowMatrix.Same

variable {a left : RowMatrix e} {a' left' : RowMatrix f}

theorem basis (same : Same a a') {b : PivotBasis (RowMatrix e)} {b' : PivotBasis (RowMatrix f)}
    (images : Same left left') (holds : a.HoldsBasis left b) (holds' : a'.HoldsBasis left' b') :
    b.Same b' := by
  obtain ⟨cells, rfl, records, pivots, -⟩ := same.trace
  have shaped' := holds'.shaped
  have rows' := holds'.rows
  simp only [pivots, settledPair, records] at shaped' rows'
  refine ⟨?_, same_of_list holds.shaped shaped' holds.rows rows', ?_⟩
  · rw [holds.image, holds'.image]
    exact images
  · rw [holds.pivots, holds'.pivots, pivots]

theorem splits (same : Same a a') {wanted : Wanted} {d : Splitting (RowMatrix e)}
    {d' : Splitting (RowMatrix f)} (splits : a.SplitsInto wanted left d)
    (splits' : a'.SplitsInto wanted left' d') : Same left left' ∧ d.Same d' := by
  have images := same.image splits.image splits'.image
  refine ⟨images, ?_, ?_, ?_, ?_⟩
  · rw [splits.rank, splits'.rank, ← splits.image.shaped.rows, ← splits'.image.shaped.rows,
      images.rows]
  · exact rel_of_isSome (splits'.kernel_isSome.trans splits.kernel_isSome.symm)
      fun x hx y hy => same.kernel (splits.kernel x hx) (splits'.kernel y hy)
  · exact rel_of_isSome (splits'.dual_isSome.trans splits.dual_isSome.symm)
      fun x hx y hy => same.dual (splits.dual x hx) (splits'.dual y hy)
  · exact rel_of_isSome (splits'.basis_isSome.trans splits.basis_isSome.symm)
      fun x hx y hy => same.basis images (splits.basis x hx) (splits'.basis y hy)

/-- The same rows that follow the same elimination are left with the same residues. -/
theorem reducesBefore (same : Same a a') {l residues subtracted : RowMatrix e}
    {l' residues' subtracted' : RowMatrix f} {i : Nat} (rows : Same l l')
    (hl : l.Shaped a.prime r a.columns) (reduces : a.ReducesBefore l residues subtracted r i)
    (reduces' : a'.ReducesBefore l' residues' subtracted' r i) :
    Same residues residues' ∧ Same subtracted subtracted' := by
  obtain ⟨cells, rfl, records, -⟩ := same.trace
  have pairs' := reduces'.pairs
  simp only [records, rows.vec_eq hl] at pairs'
  have pairs (j : Nat) (hj : j < r) := (pairs' j hj).trans (reduces.pairs j hj).symm
  constructor
  · exact reduces.residues_shaped.same reduces'.residues_shaped
      fun j hj => congrArg Prod.fst (pairs j hj)
  · exact reduces.subtracted_shaped.same reduces'.subtracted_shaped
      fun j hj => neg_injective (congrArg Prod.snd (pairs j hj))

theorem reducedBy (same : Same a a') {image reduced : RowMatrix e} {image' reduced' : RowMatrix f}
    {k i : Nat} (images : Same image image') (hi : image.Shaped a.prime k a.columns)
    (result : a.ReducedBy image i reduced) (result' : a'.ReducedBy image' i reduced') :
    Same reduced reduced' := by
  obtain ⟨cells, rfl, -⟩ := same.trace
  have rows' := result'.rows
  simp only [images.vec_eq hi, same.vec_eq same.wellFormed.shaped] at rows'
  exact result.shaped.same result'.shaped
    fun j hj => (rows' j hj).trans (result.rows j hj).symm

end RowMatrix.Same

theorem PivotBasis.Same.shaped {b : PivotBasis (RowMatrix e)} {b' : PivotBasis (RowMatrix f)}
    {k m : Nat} (same : b.Same b') (h : b.Shaped p k n m) : b'.Shaped p k n m where
  image := same.image.shaped h.image
  combinations := same.combinations.shaped h.combinations
  length := same.pivots ▸ h.length
  pivots := by
    rw [same.pivots, same.image.vec_eq h.image]
    exact h.pivots

theorem PivotBasis.Same.replays {b : PivotBasis (RowMatrix e)} {b' : PivotBasis (RowMatrix f)}
    {k m i : Nat} (same : b.Same b') (h : b.Shaped p k n m) {l : RowMatrix e} {l' : RowMatrix f}
    (rows : l.Same l') (hl : l.Shaped p r n) {s : Reduction e} {s' : Reduction f}
    (replays : b.Replays l p i r n m s) (replays' : b'.Replays l' p i r n m s') :
    s.residues.Same s'.residues ∧ s.subtracted.Same s'.subtracted := by
  have list : Reduction.basisRow b' p n m = Reduction.basisRow b p n m := by
    funext t
    simp only [Reduction.basisRow, same.image.vec_eq h.image,
      same.combinations.vec_eq h.combinations]
  have pairs' := replays'.pairs
  simp only [PivotBasis.pairs, list, rows.vec_eq hl] at pairs'
  have pairs (j : Nat) (hj : j < r) := (pairs' j hj).trans (replays.pairs j hj).symm
  constructor
  · exact replays.shaped.residues.same replays'.shaped.residues
      fun j hj => congrArg Prod.fst (pairs j hj)
  · exact replays.shaped.subtracted.same replays'.shaped.subtracted
      fun j hj => neg_injective (congrArg Prod.snd (pairs j hj))

/-- Two calls keep to the rules and leave related states. Both stop for the same reason, or they
have related answers. -/
def Agree {σ σ' α α' : Type} (states : σ → σ' → Prop) (answers : α → α' → Prop)
    (call : Checked (Outcome σ ReductionError α))
    (call' : Checked (Outcome σ' ReductionError α')) : Prop :=
  ∃ outcome outcome', call = .ok outcome ∧ call' = .ok outcome' ∧
    states outcome.state outcome'.state ∧
    match outcome.answer, outcome'.answer with
    | .ok answer, .ok answer' => answers answer answer'
    | .error stopped, .error stopped' => stopped' = stopped
    | .ok _, .error _ => False
    | .error _, .ok _ => False

namespace RowMatrix

variable {a l image : RowMatrix e} {a' l' image' : RowMatrix f}

theorem Same.split (same : Same a a') (wanted : Wanted) (pacer : Pacer)
    (fits : wanted ≠ .nothing → Fits e a.rows a.rows ∧ Fits f a.rows a.rows) :
    Agree (fun s s' => Same s.1 s'.1 ∧ s'.2 = s.2)
      (fun d d' => d.Same d' ∧ d.mapBuild (recode f) = pure d')
      (a.split wanted pacer) (a'.split wanted pacer) := by
  have enough (something : wanted ≠ .nothing) : Fits e a.rows a.rows := (fits something).1
  have enough' (something : wanted ≠ .nothing) : Fits f a'.rows a'.rows := by
    rw [same.rows]
    exact (fits something).2
  cases stop : pacer.stopRow a.rows with
  | none =>
    obtain ⟨left, d, call, splits⟩ := split_ok same.wellFormed enough stop
    rw [← same.rows] at stop
    obtain ⟨left', d', call', splits'⟩ := split_ok same.wellFormed' enough' stop
    obtain ⟨lefts, answers⟩ := same.splits splits splits'
    rw [same.rows] at call'
    exact ⟨_, _, call, call', ⟨lefts, rfl⟩, answers, answers.converted⟩
  | some row =>
    obtain ⟨left, call, visited⟩ := split_interrupted same.wellFormed enough stop
    rw [← same.rows] at stop
    obtain ⟨left', call', visited'⟩ := split_interrupted same.wellFormed' enough' stop
    rw [same.rows] at call'
    exact ⟨_, _, call, call', ⟨same.visited visited visited', rfl⟩, rfl⟩

theorem Same.preimages (same : Same a a') (rows : Same l l') (primes : l.prime = a.prime)
    (pacer : Pacer) (fits : Fits e l.rows a.rows ∧ Fits e a.rows a.rows)
    (fits' : Fits f l.rows a.rows ∧ Fits f a.rows a.rows) :
    Agree (fun s s' => Same s.matrix s'.matrix ∧ Same s.residues s'.residues ∧ s'.pacer = s.pacer)
      Same (a.preimages l pacer) (a'.preimages l' pacer) := by
  have primes' : l'.prime = a'.prime := by rw [rows.prime, same.prime, primes]
  by_cases widths : l.columns = a.columns
  · have hl : l.Shaped a.prime l.rows a.columns := ⟨rows.wellFormed, primes, rfl, widths⟩
    have hl' : l'.Shaped a'.prime l.rows a'.columns :=
      ⟨rows.wellFormed', primes', rows.rows, by rw [rows.columns, same.columns, widths]⟩
    rw [← same.rows] at fits'
    cases stop : pacer.stopRow a.rows with
    | none =>
      obtain ⟨left, residues, answer, call, holds, reduces⟩ :=
        preimages_ok same.wellFormed hl fits.1 fits.2 stop
      rw [← same.rows] at stop
      obtain ⟨left', residues', answer', call', holds', reduces'⟩ :=
        preimages_ok same.wellFormed' hl' fits'.1 fits'.2 stop
      have reduces' := reducesBefore_rows.mpr reduces'
      rw [same.rows] at call' reduces'
      obtain ⟨left_same, answer_same⟩ :=
        same.reducesBefore rows hl (reducesBefore_rows.mpr reduces) reduces'
      exact ⟨_, _, call, call', ⟨same.image holds holds', left_same, rfl⟩, answer_same⟩
    | some row =>
      obtain ⟨left, residues, subtracted, call, visited, reduces⟩ :=
        preimages_interrupted same.wellFormed hl fits.1 fits.2 stop
      rw [← same.rows] at stop
      obtain ⟨left', residues', subtracted', call', visited', reduces'⟩ :=
        preimages_interrupted same.wellFormed' hl' fits'.1 fits'.2 stop
      rw [same.rows] at call'
      exact ⟨_, _, call, call', ⟨same.visited visited visited',
        (same.reducesBefore rows hl reduces reduces').1, rfl⟩, rfl⟩
  · have call := preimages_of_widths_ne primes.symm (Ne.symm widths) pacer
    have call' := preimages_of_widths_ne primes'.symm
      (by rw [rows.columns, same.columns]; exact Ne.symm widths) pacer
    rw [rows.columns, same.columns] at call'
    exact ⟨_, _, call, call', ⟨same, rows, rfl⟩, rfl⟩

theorem Same.quotientBasis (same : Same a a') (images : Same image image')
    (primes : image.prime = a.prime) (pacer : Pacer) :
    Agree (fun s s' => Same s.1 s'.1 ∧ s'.2 = s.2) Eq
      (a.quotientBasis image pacer) (a'.quotientBasis image' pacer) := by
  have primes' : image'.prime = a'.prime := by rw [images.prime, same.prime, primes]
  by_cases widths : image.columns = a.columns
  · have hi : image.Shaped a.prime image.rows a.columns :=
      ⟨images.wellFormed, primes, rfl, widths⟩
    have hi' : image'.Shaped a'.prime image.rows a'.columns :=
      ⟨images.wellFormed', primes', images.rows, by rw [images.columns, same.columns, widths]⟩
    cases first : pacer.stopRow image.rows with
    | some row =>
      obtain ⟨left, call, result⟩ := quotientBasis_stopped_first same.wellFormed hi first
      obtain ⟨left', call', result'⟩ := quotientBasis_stopped_first same.wellFormed' hi' first
      exact ⟨_, _, call, call', ⟨same.reducedBy images hi result result', rfl⟩, rfl⟩
    | none =>
      cases second : (pacer.afterRows image.rows).endPass.stopRow a.rows with
      | some row =>
        obtain ⟨reduced, left, call, result, visited⟩ :=
          quotientBasis_stopped_second same.wellFormed hi first second
        rw [← same.rows] at second
        obtain ⟨reduced', left', call', result', visited'⟩ :=
          quotientBasis_stopped_second same.wellFormed' hi' first second
        rw [same.rows] at call'
        have between := same.reducedBy images hi result result'
        exact ⟨_, _, call, call', ⟨between.visited visited visited', rfl⟩, rfl⟩
      | none =>
        obtain ⟨reduced, left, call, result, holds⟩ :=
          quotientBasis_ok same.wellFormed hi first second
        rw [← same.rows] at second
        obtain ⟨reduced', left', call', result', holds'⟩ :=
          quotientBasis_ok same.wellFormed' hi' first second
        rw [same.rows] at call'
        have between := same.reducedBy images hi result result'
        exact ⟨_, _, call, call', ⟨between.image holds holds', rfl⟩, rfl⟩
  · have call := quotientBasis_of_widths_ne primes (Ne.symm widths) pacer
    have call' := quotientBasis_of_widths_ne primes'
      (by rw [images.columns, same.columns]; exact Ne.symm widths) pacer
    rw [images.columns, same.columns] at call'
    exact ⟨_, _, call, call', ⟨same, rfl⟩, rfl⟩

end RowMatrix

namespace PivotBasis

variable {b : PivotBasis (RowMatrix e)} {b' : PivotBasis (RowMatrix f)} {l : RowMatrix e}
  {l' : RowMatrix f} {k m : Nat}

theorem preimages_of_widths_ne (primes : b.prime = l.prime) (apart : b.columns ≠ l.columns)
    (pacer : Pacer) : b.preimages l pacer =
      .ok ⟨(l, pacer), .error (.storage (.widthMismatch b.columns l.columns))⟩ := by
  have widths : checkWidths b.columns l.columns = .error (.widthMismatch b.columns l.columns) :=
    if_neg apart
  simp only [preimages, primes, decide_true, require, if_true, widths]
  rfl

theorem Same.preimages (same : b.Same b') (h : b.Shaped p k n m) (rows : l.Same l')
    (primes : l.prime = p) (pacer : Pacer) (fits : Fits e l.rows m) (fits' : Fits f l.rows m) :
    Agree (fun s s' => s.1.Same s'.1 ∧ s'.2 = s.2) RowMatrix.Same
      (b.preimages l pacer) (b'.preimages l' pacer) := by
  by_cases widths : l.columns = n
  · have hl : l.Shaped p l.rows n := ⟨rows.wellFormed, primes, rfl, widths⟩
    have hl' := rows.shaped hl
    obtain ⟨s, run, replays⟩ := replay_all h hl fits pacer
    obtain ⟨s', run', replays'⟩ := replay_all (same.shaped h) hl' fits' pacer
    obtain ⟨residues, answers⟩ := same.replays h rows hl replays replays'
    have call := preimages_eq h hl fits pacer
    have call' := preimages_eq (same.shaped h) hl' fits' pacer
    rw [run] at call
    rw [run'] at call'
    cases stop : pacer.stopRow k with
    | none =>
      rw [stop] at call call'
      exact ⟨_, _, call, call', ⟨residues, rfl⟩, answers⟩
    | some row =>
      rw [stop] at call call'
      exact ⟨_, _, call, call', ⟨residues, rfl⟩, rfl⟩
  · have prime : b.prime = p := h.image.prime
    have columns : b.columns = n := h.image.columns
    have prime' : b'.prime = p := (same.shaped h).image.prime
    have columns' : b'.columns = n := (same.shaped h).image.columns
    have call := preimages_of_widths_ne (b := b) (l := l) (prime.trans primes.symm)
      (by rw [columns]; exact Ne.symm widths) pacer
    have call' := preimages_of_widths_ne (b := b') (l := l')
      (by rw [prime', rows.prime, primes]) (by rw [columns', rows.columns]; exact Ne.symm widths)
      pacer
    rw [columns] at call
    rw [columns', rows.columns] at call'
    exact ⟨_, _, call, call', ⟨rows, rfl⟩, rfl⟩

end PivotBasis

theorem RowMatrix.same_of_recode {g : Encoding} {x : RowMatrix g} (wf : x.WellFormed)
    {a : RowMatrix e} {a' : RowMatrix f} (first : x.recode e = pure a)
    (second : x.recode f = pure a') : a.Same a' := by
  obtain ⟨shaped, vectors⟩ := wf.shaped.of_recode first
  obtain ⟨shaped', vectors'⟩ := wf.shaped.of_recode second
  exact shaped.same shaped' fun i hi => (vectors' i hi).trans (vectors i hi).symm

theorem EncodedMatrix.same_of_inEncoding {m : EncodedMatrix} (wf : m.matrix.WellFormed)
    {converted : RowMatrix f} (call : m.inEncoding f = pure converted) :
    m.matrix.Same converted := by
  obtain ⟨encoding, matrix⟩ := m
  unfold inEncoding at call
  split at call
  · rename_i same
    subst same
    cases call
    exact wf.same
  · obtain ⟨shaped, vectors⟩ := wf.shaped.of_recode call
    exact wf.shaped.same shaped vectors

theorem PivotBasis.same_of_mapBuild {g : Encoding} {b : PivotBasis (RowMatrix g)} {k m : Nat}
    (valid : b.Shaped p k n m) {c : PivotBasis (RowMatrix e)} {c' : PivotBasis (RowMatrix f)}
    (first : b.mapBuild (RowMatrix.recode e) = pure c)
    (second : b.mapBuild (RowMatrix.recode f) = pure c') : c.Same c' ∧ c.Shaped p k n m := by
  obtain ⟨image, combinations, pivots⟩ := mapBuild_eq_pure.mp first
  obtain ⟨image', combinations', pivots'⟩ := mapBuild_eq_pure.mp second
  exact ⟨⟨RowMatrix.same_of_recode valid.image.wellFormed image image',
    RowMatrix.same_of_recode valid.combinations.wellFormed combinations combinations',
    pivots'.trans pivots.symm⟩, (valid.mapBuild first).1⟩

/-- Every reduction gives the same for inputs that were converted to one encoding as for the same
inputs in another: the pacer ends in the same state with the same reports, the matrices that are
left hold the same entries even if the call was interrupted, and converting all that is answered
in the first encoding gives what is answered in the second. -/
theorem reductions_agree {g g' g'' : Encoding} {x : RowMatrix g} {y : RowMatrix g'}
    {b : PivotBasis (RowMatrix g'')} {k m : Nat} (wf : x.WellFormed) (wf' : y.WellFormed)
    (primes : y.prime = x.prime) (valid : b.Shaped x.prime k n m) {a l : RowMatrix e}
    {c : PivotBasis (RowMatrix e)} {a' l' : RowMatrix f} {c' : PivotBasis (RowMatrix f)}
    (ha : x.recode e = pure a) (ha' : x.recode f = pure a') (hl : y.recode e = pure l)
    (hl' : y.recode f = pure l') (hc : b.mapBuild (RowMatrix.recode e) = pure c)
    (hc' : b.mapBuild (RowMatrix.recode f) = pure c') (pacer : Pacer) :
    (∀ wanted : Wanted,
      (wanted ≠ .nothing → Fits e x.rows x.rows ∧ Fits f x.rows x.rows) →
      Agree (fun s s' => s.1.Same s'.1 ∧ s'.2 = s.2)
        (fun d d' => d.Same d' ∧ d.mapBuild (RowMatrix.recode f) = pure d')
        (a.split wanted pacer) (a'.split wanted pacer)) ∧
    (Fits e y.rows x.rows ∧ Fits e x.rows x.rows → Fits f y.rows x.rows ∧ Fits f x.rows x.rows →
      Agree (fun s s' => s.matrix.Same s'.matrix ∧ s.residues.Same s'.residues ∧
          s'.pacer = s.pacer) RowMatrix.Same
        (a.preimages l pacer) (a'.preimages l' pacer)) ∧
    (Fits e y.rows m → Fits f y.rows m →
      Agree (fun s s' => s.1.Same s'.1 ∧ s'.2 = s.2) RowMatrix.Same
        (c.preimages l pacer) (c'.preimages l' pacer)) ∧
    Agree (fun s s' => s.1.Same s'.1 ∧ s'.2 = s.2) Eq
      (a.quotientBasis l pacer) (a'.quotientBasis l' pacer) := by
  have same := RowMatrix.same_of_recode wf ha ha'
  have rows := RowMatrix.same_of_recode wf' hl hl'
  obtain ⟨bases, basis_shaped⟩ := PivotBasis.same_of_mapBuild valid hc hc'
  obtain ⟨shaped, -⟩ := wf.shaped.of_recode ha
  obtain ⟨rows_shaped, -⟩ := wf'.shaped.of_recode hl
  have converted_primes : l.prime = a.prime := by rw [rows_shaped.prime, shaped.prime, primes]
  rw [← shaped.rows, ← rows_shaped.rows]
  refine ⟨fun wanted fits => same.split wanted pacer fits,
    fun fits fits' => same.preimages rows converted_primes pacer fits fits',
    fun fits fits' => ?_, same.quotientBasis rows converted_primes pacer⟩
  exact bases.preimages basis_shaped rows (rows_shaped.prime.trans primes) pacer fits fits'

end

theorem reductions_agree_of_sample :
    let a (e : Encoding) := RowMatrix.tabulate e .two 3 70 fun i j => i * j + i
    let l (e : Encoding) := RowMatrix.tabulate e .two 2 70 fun i j => i + j
    let image (e : Encoding) := RowMatrix.tabulate e .two 1 70 fun _ j => j
    let combinations (e : Encoding) := RowMatrix.tabulate e .two 1 4 fun _ j => j
    let c (e : Encoding) : PivotBasis (RowMatrix e) := ⟨image e, combinations e, [⟨0, 1, 1⟩]⟩
    let pacer := Pacer.standard
    (∀ wanted : Wanted,
      (wanted ≠ .nothing → Fits .batched 3 3 ∧ Fits .packed 3 3) →
      Agree (fun s s' => s.1.Same s'.1 ∧ s'.2 = s.2)
        (fun d d' => d.Same d' ∧ d.mapBuild (RowMatrix.recode .packed) = pure d')
        ((a .batched).split wanted pacer) ((a .packed).split wanted pacer)) ∧
    (Fits .batched 2 3 ∧ Fits .batched 3 3 → Fits .packed 2 3 ∧ Fits .packed 3 3 →
      Agree (fun s s' => s.matrix.Same s'.matrix ∧ s.residues.Same s'.residues ∧
          s'.pacer = s.pacer) RowMatrix.Same
        ((a .batched).preimages (l .batched) pacer) ((a .packed).preimages (l .packed) pacer)) ∧
    (Fits .batched 2 4 → Fits .packed 2 4 →
      Agree (fun s s' => s.1.Same s'.1 ∧ s'.2 = s.2) RowMatrix.Same
        ((c .batched).preimages (l .batched) pacer) ((c .packed).preimages (l .packed) pacer)) ∧
    Agree (fun s s' => s.1.Same s'.1 ∧ s'.2 = s.2) Eq
      ((a .batched).quotientBasis (l .batched) pacer)
      ((a .packed).quotientBasis (l .packed) pacer) := by
  intro a l image combinations c pacer
  have ha : (a .generic).Shaped .two 3 70 :=
    RowMatrix.tabulate_shaped (by decide) (by decide) (by decide) (by decide) _
  have hl : (l .generic).Shaped .two 2 70 :=
    RowMatrix.tabulate_shaped (by decide) (by decide) (by decide) (by decide) _
  have himage : (image .generic).Shaped .two 1 70 :=
    RowMatrix.tabulate_shaped (by decide) (by decide) (by decide) (by decide) _
  have hcombinations : (combinations .generic).Shaped .two 1 4 :=
    RowMatrix.tabulate_shaped (by decide) (by decide) (by decide) (by decide) _
  have entry (j : Fin 70) : (image .generic).read 0 j = j.val % 2 :=
    RowMatrix.read_tabulate (by decide) (by decide) (by decide) (by decide) _ (by decide) j.isLt
  have vector : (image .generic).vec .two 70 0 = fun j => ((j.val % 2 : Nat) : Residue .two) := by
    funext j
    rw [RowMatrix.vec, entry]
  have found : pivotOf ((image .generic).vec .two 70 0) 0 = some ⟨0, 1, 1⟩ := by
    rw [vector, pivotOf_eq_some]
    refine ⟨1, lead_eq_some.mpr ⟨by decide, ?_⟩, ?_⟩
    · intro d before
      obtain rfl : d = 0 := by omega
      rfl
    · have one : ((((1 : Fin 70).val % 2 : Nat) : Residue .two)) = 1 := Nat.cast_one
      rw [one, inv_one]
      rfl
  have valid : (c .generic).Shaped .two 1 70 4 := by
    refine ⟨himage, hcombinations, rfl, ?_⟩
    intro k pivot place
    cases k with
    | zero =>
      cases place
      exact found
    | succ k => cases place
  have converted (f : Encoding) (supported : f.canStore .two = true) (fits : Fits f 3 70)
      (fits' : Fits f 2 70) (image_fits : Fits f 1 70) (small : Fits f 1 4) :
      (a .generic).recode f = pure (a f) ∧ (l .generic).recode f = pure (l f) ∧
        (c .generic).mapBuild (RowMatrix.recode f) = pure (c f) := by
    have image_converted : (image .generic).recode f = pure (image f) :=
      RowMatrix.recode_tabulate (by decide) supported (by decide) (by decide) (by decide)
        image_fits _
    have combinations_converted : (combinations .generic).recode f = pure (combinations f) :=
      RowMatrix.recode_tabulate (by decide) supported (by decide) (by decide) (by decide) small _
    refine ⟨RowMatrix.recode_tabulate (by decide) supported (by decide) (by decide) (by decide)
      fits _, RowMatrix.recode_tabulate (by decide) supported (by decide) (by decide) (by decide)
      fits' _, ?_⟩
    exact PivotBasis.mapBuild_eq_pure.mpr ⟨image_converted, combinations_converted, rfl⟩
  obtain ⟨ha₁, hl₁, hc₁⟩ :=
    converted .batched (by decide) (by decide) (by decide) (by decide) (by decide)
  obtain ⟨ha₂, hl₂, hc₂⟩ :=
    converted .packed (by decide) (by decide) (by decide) (by decide) (by decide)
  have agree := reductions_agree ha.wellFormed hl.wellFormed (hl.prime.trans ha.prime.symm)
    (by rw [ha.prime]; exact valid) ha₁ ha₂ hl₁ hl₂ hc₁ hc₂ pacer
  rw [ha.rows, hl.rows] at agree
  exact agree

end RowReduction
