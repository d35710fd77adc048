import Mathlib
import RowReduction.Proofs.Trace
import RowReduction.Proofs.Walk

/-!
The run of a forward elimination. When the first `i` rows have been visited, the rows kept at the
front are the settled rows with a pivot, the rows behind them are what linear algebra says about
that moment, and so is the change of basis, under the old row numbers. The invariant is proved for
one row and holds for every run, also for one that is interrupted.
-/
namespace RowReduction

open EchelonForm

variable [Storage.Memory] {e : Encoding} {p : SmallPrime} {m n : Nat} {τ : Type}

namespace RowMatrix

theorem Shaped.keep_ok {matrix : RowMatrix e} (h : matrix.Shaped p m n) (kept : KeptRows) {i : Nat}
    (hi : i < m) (ahead : kept.next ≤ i) :
    ∃ matrix', kept.keep matrix i = .ok (⟨kept.next + 1⟩, matrix') ∧ matrix'.Shaped p m n ∧
      matrix'.vec p n = Function.update (matrix.vec p n) kept.next (matrix.vec p n i) := by
  obtain ⟨matrix', moved, shaped, rows⟩ := h.move_ok ahead hi
  refine ⟨matrix', ?_, shaped, rows⟩
  rw [KeptRows.keep, require_eq_ok.mpr (decide_eq_true ahead), moved]
  rfl

end RowMatrix

namespace Elimination

/-- A state `s` of the elimination of `w` in which the first `i` rows have been visited. -/
structure Agrees (w : Workspace e) (p : SmallPrime) (m n i : Nat) (s : Elimination e τ) :
    Prop where
  shaped : s.workspace.Shaped p m n
  combination : s.workspace.combination.isSome = w.combination.isSome
  dual : s.workspace.dual.isSome = w.dual.isSome
  pivots : s.pivots.toList = pivotsBefore (w.pair p n m) i
  dependent : s.dependent.toList = dependentBefore (w.pair p n m) i
  next : s.kept.next = (pivotsBefore (w.pair p n m) i).length
  kept_rows : ∀ k pivot, (pivotsBefore (w.pair p n m) i)[k]? = some pivot →
    s.workspace.matrix.vec p n k = (Pair.settled (w.pair p n m) pivot.row).1
  other_rows : ∀ q, s.kept.next ≤ q → q < m →
    s.workspace.matrix.vec p n q = (stage (Pair.vector p n m) (w.pair p n m) i q).1
  records : ∀ q, q < m → RowMatrix.companion s.workspace.combination p m q =
    (stage (Pair.vector p n m) (w.pair p n m) i q).2
  dual_rows : ∀ q, i ≤ q ∨ (Pair.settled (w.pair p n m) q).1 = 0 →
    RowMatrix.companion s.workspace.dual p m q = RowMatrix.companion w.dual p m q

/-- A relation `R` of visited rows and follower states that a follower keeps. It sees the settled
row with its record, under its old number. -/
structure Keeps (follow : Follow e τ) (w : Workspace e) (p : SmallPrime) (m n : Nat)
    (R : Nat → τ → Prop) : Prop where
  skip : ∀ i f, i < m → (Pair.settled (w.pair p n m) i).1 = 0 → R i f → R (i + 1) f
  step : ∀ i f v pivot, i < m → pivotOf (Pair.settled (w.pair p n m) i).1 i = some pivot →
    v.Shaped p m n → v.combination.isSome = w.combination.isSome →
    v.pair p n m i = Pair.settled (w.pair p n m) i → R i f →
    ∃ f', follow f v pivot = .ok f' ∧ R (i + 1) f'

variable {w : Workspace e}

theorem start_agrees (h : w.Shaped p m n) (follower : τ) (pacer : Pacer) :
    (start w follower pacer).Agrees w p m n 0 where
  shaped := h
  combination := rfl
  dual := rfl
  pivots := rfl
  dependent := rfl
  next := rfl
  kept_rows k pivot found := by simp [pivotsBefore] at found
  other_rows q _ _ := by rw [stage_zero]; rfl
  records q _ := by rw [stage_zero]; rfl
  dual_rows _ _ := rfl

namespace Agrees

variable {s : Elimination e τ} {i : Nat}

theorem ahead (h : s.Agrees w p m n i) : s.kept.next ≤ i := by
  rw [h.next]
  exact length_pivotsBefore_le i

theorem pair_eq (h : s.Agrees w p m n i) (hi : i < m) :
    s.workspace.pair p n m i = Pair.settled (w.pair p n m) i := by
  have place : stage (Pair.vector p n m) (w.pair p n m) i i = Pair.settled (w.pair p n m) i :=
    stage_of_visited (Nat.le_refl i)
  rw [← place]
  exact Prod.ext (h.other_rows i h.ahead hi) (h.records i hi)

/-- Visiting a row that is zero by now changes no row. -/
theorem visit_dependent (h : s.Agrees w p m n i) (hi : i < m) (follow : Follow e τ)
    (zero : (Pair.settled (w.pair p n m) i).1 = 0) :
    s.visit follow i = .ok { s with dependent := s.dependent.push i } ∧
      Agrees w p m n (i + 1) { s with dependent := s.dependent.push i } := by
  have unchanged (q : Nat) : stage (Pair.vector p n m) (w.pair p n m) (i + 1) q =
      stage (Pair.vector p n m) (w.pair p n m) i q := by
    rw [stage_succ]
    split
    · exact clear_of_lead_none (lead_eq_none.mpr zero) _
    · rfl
  have pivots := pivotsBefore_of_zero zero
  constructor
  · have blank : s.workspace.matrix.vec p n i = 0 :=
      (congrArg Prod.fst (h.pair_eq hi)).trans zero
    simp only [visit, h.shaped.matrix.leading_eq hi, lead_eq_none.mpr blank]
    rfl
  · exact {
      shaped := h.shaped
      combination := h.combination
      dual := h.dual
      pivots := by rw [pivots]; exact h.pivots
      dependent := by
        rw [dependentBefore_of_zero zero, ← h.dependent]
        exact Array.toList_push
      next := by rw [pivots]; exact h.next
      kept_rows := by rw [pivots]; exact h.kept_rows
      other_rows := fun q kept inside => by rw [unchanged]; exact h.other_rows q kept inside
      records := fun q inside => by rw [unchanged]; exact h.records q inside
      dual_rows := fun q place => h.dual_rows q (place.imp (fun later => by omega) id) }

/-- From the first row that was not kept on, the rows are what linear algebra says about them. -/
theorem stage_pair (h : s.Agrees w p m n i) (hi : i < m) {cleared : Workspace e}
    (clears : s.workspace.Clears cleared p m n i) {q : Nat} (behind : s.kept.next ≤ q)
    (inside : q < m) :
    cleared.pair p n m q = stage (Pair.vector p n m) (w.pair p n m) (i + 1) q := by
  have before : s.workspace.pair p n m q = stage (Pair.vector p n m) (w.pair p n m) i q :=
    Prod.ext (h.other_rows q behind inside) (h.records q inside)
  rw [clears.pairs, stage_succ, h.pair_eq hi, before]
  simp only [inside, and_true]

/-- When the pivot row has been moved over a row that is settled and not needed any more, one more
row has been visited. -/
theorem pivot_agrees (h : s.Agrees w p m n i) (hi : i < m) {pivot : Pivot}
    (found : pivotOf (Pair.settled (w.pair p n m) i).1 i = some pivot) {cleared : Workspace e}
    (clears : s.workspace.Clears cleared p m n i) {matrix : RowMatrix e}
    (shaped : matrix.Shaped p m n) (rows : matrix.vec p n =
      Function.update (cleared.matrix.vec p n) s.kept.next (cleared.matrix.vec p n i))
    (follower : τ) :
    Agrees w p m n (i + 1) { s with
      workspace := ⟨matrix, cleared.combination, cleared.dual⟩
      follower
      kept := ⟨s.kept.next + 1⟩
      pivots := s.pivots.push pivot } where
  shaped := ⟨shaped, clears.shaped.combination, clears.shaped.dual⟩
  combination := clears.keeps.combination.trans h.combination
  dual := clears.keeps.dual.trans h.dual
  pivots := by
    rw [pivotsBefore_of_pivot found, ← h.pivots]
    exact Array.toList_push
  dependent := by
    rw [dependentBefore_of_pivot found]
    exact h.dependent
  next := by
    rw [pivotsBefore_of_pivot found, List.length_append, ← h.next]
    rfl
  kept_rows := by
    intro k other place
    have ahead := h.ahead
    change matrix.vec p n k = _
    rw [pivotsBefore_of_pivot found, List.getElem?_append, ← h.next] at place
    split at place
    · -- A row that was kept earlier stands before the pivot row, so clearing passes it by.
      rename_i earlier
      have unchanged := congrArg Prod.fst (clears.pairs k)
      rw [if_neg (by omega)] at unchanged
      rw [rows, Function.update_of_ne (by omega), ← h.kept_rows k other place]
      exact unchanged
    · obtain ⟨last, rfl⟩ : k - s.kept.next = 0 ∧ other = pivot := by
        simpa [List.getElem?_singleton, eq_comm] using place
      have here : k = s.kept.next := by omega
      have pivot_row := congrArg Prod.fst (clears.pairs i)
      rw [if_neg (by omega), h.pair_eq hi] at pivot_row
      rw [rows, here, Function.update_self, row_of_pivotOf found]
      exact pivot_row
  other_rows := by
    intro q later inside
    have later : s.kept.next + 1 ≤ q := later
    change matrix.vec p n q = _
    rw [rows, Function.update_of_ne (by omega), ← h.stage_pair hi clears (by omega) inside]
    rfl
  records := by
    intro q inside
    have ahead := h.ahead
    by_cases behind : s.kept.next ≤ q
    · exact congrArg Prod.snd (h.stage_pair hi clears behind inside)
    · have unchanged := congrArg Prod.snd (clears.pairs q)
      rw [if_neg (by omega)] at unchanged
      rw [stage_succ, if_neg (by omega), ← h.records q inside]
      exact unchanged
  dual_rows := by
    intro q place
    have apart : q ≠ i := by
      rintro rfl
      rcases place with later | zero
      · omega
      · exact ne_zero_of_pivotOf found zero
    rw [← h.dual_rows q (place.imp (fun later => by omega) id)]
    exact clears.keeps.dual_rows q apart

/-- Visiting a row with a pivot clears the pivot's column from the rows that come later. -/
theorem visit_pivot (h : s.Agrees w p m n i) (hi : i < m) {follow : Follow e τ}
    {R : Nat → τ → Prop} (keeps : Keeps follow w p m n R) (related : R i s.follower) {pivot : Pivot}
    (found : pivotOf (Pair.settled (w.pair p n m) i).1 i = some pivot) :
    ∃ s', s.visit follow i = .ok s' ∧ s'.Agrees w p m n (i + 1) ∧ R (i + 1) s'.follower ∧
      s'.pacer = s.pacer := by
  have row : s.workspace.matrix.vec p n i = (Pair.settled (w.pair p n m) i).1 :=
    congrArg Prod.fst (h.pair_eq hi)
  have here : pivotOf (s.workspace.matrix.vec p n i) i = some pivot := by rw [row, found]
  obtain ⟨cleared, run, clears⟩ := h.shaped.clearBelow_ok hi here
  have pivot_pair : cleared.pair p n m i = Pair.settled (w.pair p n m) i := by
    rw [clears.pairs, if_neg (by omega), h.pair_eq hi]
  obtain ⟨f', followed, related'⟩ := keeps.step i s.follower cleared pivot hi found clears.shaped
    (clears.keeps.combination.trans h.combination) pivot_pair related
  obtain ⟨matrix, moved, shaped, rows⟩ := clears.shaped.matrix.keep_ok s.kept hi h.ahead
  refine ⟨_, ?_, h.pivot_agrees hi found clears shaped rows f', related', rfl⟩
  obtain ⟨c, leads, rfl⟩ := pivotOf_eq_some.mp here
  have coefficient := p.clearingCoefficient_eq (lead_eq_some.mp leads).1
  simp only [visit, h.shaped.matrix.leading_eq hi, leads, Option.map_some, bind, Except.bind,
    h.shaped.matrix.prime, coefficient, run, followed, moved]
  rfl

theorem withPacer (h : s.Agrees w p m n i) (pacer : Pacer) :
    Agrees w p m n i { s with pacer } where
  shaped := h.shaped
  combination := h.combination
  dual := h.dual
  pivots := h.pivots
  dependent := h.dependent
  next := h.next
  kept_rows := h.kept_rows
  other_rows := h.other_rows
  records := h.records
  dual_rows := h.dual_rows

theorem visit_ok (h : s.Agrees w p m n i) (hi : i < m) {follow : Follow e τ} {R : Nat → τ → Prop}
    (keeps : Keeps follow w p m n R) (related : R i s.follower) :
    ∃ s', s.visit follow i = .ok s' ∧ s'.Agrees w p m n (i + 1) ∧ R (i + 1) s'.follower ∧
      s'.pacer = s.pacer := by
  cases found : pivotOf (Pair.settled (w.pair p n m) i).1 i with
  | none =>
    have zero := pivotOf_eq_none.mp found
    obtain ⟨visited, agrees⟩ := h.visit_dependent hi follow zero
    exact ⟨_, visited, agrees, keeps.skip i s.follower hi zero related, rfl⟩
  | some pivot => exact h.visit_pivot hi keeps related found

/-- A run of visits passes its checkpoints as the pacer alone would, and all rows before the one
that stops it have been visited. -/
theorem visitFrom_ok (h : s.Agrees w p m n i) {follow : Follow e τ} {R : Nat → τ → Prop}
    (keeps : Keeps follow w p m n R) (related : R i s.follower) (total remaining : Nat)
    (inside : i + remaining ≤ m) :
    let walked := s.pacer.walk total remaining i
    let reached := walked.2.getD (i + remaining)
    ∃ s', s.visitFrom follow total remaining i = .ok ⟨s', Pacer.ending walked.2⟩ ∧
      s'.Agrees w p m n reached ∧ R reached s'.follower ∧ s'.pacer = walked.1 := by
  induction remaining generalizing s i with
  | zero => exact ⟨s, rfl, h, related, rfl⟩
  | succ remaining ih =>
    rcases Pacer.checkpoint_cases s.pacer i total with ⟨pacer, passed, -⟩ | ⟨stopped, -⟩
    · obtain ⟨next, visited, agrees, related', same⟩ :=
        (h.withPacer pacer).visit_ok (by omega) keeps related
      have rest := ih agrees related' (by omega)
      rw [same] at rest
      simp only [Pacer.walk, passed, visitFrom, visited, bind, Except.bind]
      rwa [Nat.add_right_comm] at rest
    · simp only [Pacer.walk, stopped, visitFrom]
      exact ⟨_, rfl, h.withPacer s.pacer, related, rfl⟩

end Agrees

/-- The state `s` that a complete elimination of `w` leaves: only rows with a pivot are left. -/
structure Finished (w : Workspace e) (p : SmallPrime) (m n : Nat) (s : Elimination e τ) :
    Prop where
  matrix : s.workspace.matrix.Shaped p (pivotsBefore (w.pair p n m) m).length n
  combination : ∀ u ∈ s.workspace.combination, u.Shaped p m m
  dual : ∀ d ∈ s.workspace.dual, d.Shaped p m m
  combination_isSome : s.workspace.combination.isSome = w.combination.isSome
  dual_isSome : s.workspace.dual.isSome = w.dual.isSome
  pivots : s.pivots.toList = pivotsBefore (w.pair p n m) m
  dependent : s.dependent.toList = dependentBefore (w.pair p n m) m
  rows : ∀ k pivot, (pivotsBefore (w.pair p n m) m)[k]? = some pivot →
    s.workspace.matrix.vec p n k = (Pair.settled (w.pair p n m) pivot.row).1
  records : ∀ q, q < m → RowMatrix.companion s.workspace.combination p m q =
    (Pair.settled (w.pair p n m) q).2
  dual_rows : ∀ q, (Pair.settled (w.pair p n m) q).1 = 0 →
    RowMatrix.companion s.workspace.dual p m q = RowMatrix.companion w.dual p m q

theorem Agrees.finish_ok {s : Elimination e τ} (h : s.Agrees w p m n m) :
    ∃ s', s.finish = ⟨s', .ok ()⟩ ∧ s'.Finished w p m n ∧ s'.follower = s.follower ∧
      s'.pacer = s.pacer := by
  obtain ⟨matrix, cut, shaped, rows⟩ := h.shaped.matrix.resize_ok h.ahead
  refine ⟨{ s with workspace := { s.workspace with matrix } }, ?_, ?_, rfl, rfl⟩
  · simp only [finish, KeptRows.finish, cut]
    rfl
  · exact {
      matrix := by rw [← h.next]; exact shaped
      combination := h.shaped.combination
      dual := h.shaped.dual
      combination_isSome := h.combination
      dual_isSome := h.dual
      pivots := h.pivots
      dependent := h.dependent
      rows := by
        intro k pivot place
        have kept : k < s.kept.next := by
          rw [h.next]
          exact (List.getElem?_eq_some_iff.mp place).1
        exact (rows k kept).trans (h.kept_rows k pivot place)
      records := by
        intro q inside
        have visited : stage (Pair.vector p n m) (w.pair p n m) m q =
            Pair.settled (w.pair p n m) q := stage_of_visited (Nat.le_of_lt inside)
        exact (h.records q inside).trans (congrArg Prod.snd visited)
      dual_rows := fun q zero => h.dual_rows q (Or.inr zero) }

section Runs

variable {follow : Follow e τ} {R : Nat → τ → Prop}

theorem run_complete (h : w.Shaped p m n) (keeps : Keeps follow w p m n R) (follower : τ)
    (related : R 0 follower) (pacer : Pacer) (uninterrupted : pacer.stopRow m = none) :
    ∃ s, (start w follower pacer).run follow = .ok ⟨s, .ok ()⟩ ∧ s.Finished w p m n ∧
      R m s.follower ∧ s.pacer = pacer.afterRows m := by
  obtain ⟨s, visited, agrees, related', walked⟩ :=
    (start_agrees h follower pacer).visitFrom_ok keeps related m m (by omega)
  have stop : ((start w follower pacer).pacer.walk m m 0).2 = none := uninterrupted
  rw [stop, Option.getD_none, Nat.zero_add] at agrees related'
  rw [stop] at visited
  obtain ⟨final, finished, done, same, same_pacer⟩ := agrees.finish_ok
  refine ⟨final, ?_, done, by rw [same]; exact related', same_pacer.trans walked⟩
  have rows : (start w follower pacer).workspace.matrix.rows = m := h.matrix.rows
  simp only [run, rows, visited, Pacer.ending, bind, Except.bind, finished]
  rfl

/-- A run that a checkpoint stops leaves a state in which the rows before it have been visited. -/
theorem run_interrupted (h : w.Shaped p m n) (keeps : Keeps follow w p m n R) (follower : τ)
    (related : R 0 follower) (pacer : Pacer) {row : Nat} (stopped : pacer.stopRow m = some row) :
    ∃ s, (start w follower pacer).run follow = .ok ⟨s, .error .interrupted⟩ ∧
      s.Agrees w p m n row ∧ R row s.follower ∧ s.pacer = pacer.afterRows m := by
  obtain ⟨s, visited, agrees, related', walked⟩ :=
    (start_agrees h follower pacer).visitFrom_ok keeps related m m (by omega)
  have stop : ((start w follower pacer).pacer.walk m m 0).2 = some row := stopped
  rw [stop, Option.getD_some] at agrees related'
  rw [stop] at visited
  refine ⟨s, ?_, agrees, related', walked⟩
  have rows : (start w follower pacer).workspace.matrix.rows = m := h.matrix.rows
  simp only [run, rows, visited, Pacer.ending, bind, Except.bind]
  rfl

end Runs

end Elimination

end RowReduction
