import Mathlib
import RowReduction.Preimage
import RowReduction.Proofs.Elimination
import RowReduction.Proofs.PivotBasis

/-!
Rows that are reduced by the pivots of an elimination. A row goes with minus the combination that
was subtracted from it, and this pair is cleared by the pair of the pivot row, as the later rows
of the elimination itself are. Sign conventions are settled here once.
-/
namespace RowReduction.Reduction

open EchelonForm

variable [Storage.Memory] {e : Encoding} {p : SmallPrime} {m n r k k' : Nat}

/-- `r` rows with `n` columns, and the combinations of `m` rows that were subtracted from them. -/
structure Shaped (s : Reduction e) (p : SmallPrime) (r n m : Nat) : Prop where
  residues : s.residues.Shaped p r n
  subtracted : s.subtracted.Shaped p r m

/-- A residue and the record of what was added to the initial row. -/
def pair (s : Reduction e) (p : SmallPrime) (n m j : Nat) : Pair p n m :=
  (s.residues.vec p n j, -s.subtracted.vec p m j)

variable {s : Reduction e} {image combination : RowMatrix e}

/-- Reducing a row clears its pair by the pair of the pivot row. -/
theorem reduceRow_ok (h : s.Shaped p r n m) (hi : image.Shaped p k n)
    (hc : combination.Shaped p k' m) {i j : Nat} (image_row : i < k) (combination_row : i < k')
    (hj : j < r) {pivot : Pivot} (found : pivotOf (image.vec p n i) i = some pivot) :
    ∃ s', s.reduceRow image combination pivot j = .ok s' ∧ s'.Shaped p r n m ∧
      s'.pair p n m = Function.update (s.pair p n m) j
        (clear (Pair.vector p n m) (image.vec p n i, combination.vec p m i)
          (s.pair p n m j)) := by
  obtain ⟨c, leads, rfl⟩ := pivotOf_eq_some.mp found
  have before (d : Fin n) (hd : d.val < c.val) : image.vec p n i d = 0 :=
    (lead_eq_some.mp leads).2 d hd
  have cleared := clear_of_lead (Pair.vector p n m)
    (r := (image.vec p n i, combination.vec p m i)) leads (s.pair p n m j)
  obtain ⟨residues, subtracted⟩ := s
  obtain ⟨hresidues, hsubtracted⟩ := h
  simp only [pair] at *
  unfold reduceRow
  simp only [hresidues.prime, hresidues.entry_eq hj c, bind, Except.bind]
  by_cases zero : (residues.vec p n j c).val = 0
  · refine ⟨_, if_pos zero, ⟨hresidues, hsubtracted⟩, ?_⟩
    have vanishes := (ZMod.val_eq_zero _).mp zero
    rw [clear_of_zero (Pair.vector p n m) leads vanishes]
    exact (Function.update_eq_self _ _).symm
  · rw [if_neg zero]
    have cast := p.cast_product (-(image.vec p n i c)⁻¹) (residues.vec p n j c)
    have small := p.product_lt (-(image.vec p n i c)⁻¹).val (residues.vec p n j c).val
    generalize p.product (-(image.vec p n i c)⁻¹).val (residues.vec p n j c).val = a at cast small ⊢
    obtain ⟨residues', added, hresidues', rows⟩ :=
      hresidues.addRowOf_ok hi hj image_row a c before
    obtain ⟨b, negated, -, opposite⟩ := p.neg_eq small
    obtain ⟨subtracted', recorded, hsubtracted', records⟩ :=
      hsubtracted.addRowOf_ok hc hj combination_row b 0 (by simp)
    refine ⟨⟨residues', subtracted'⟩, ?_, ⟨hresidues', hsubtracted'⟩, ?_⟩
    · simp only [added, negated, recorded]
      rfl
    · funext q
      change (residues'.vec p n q, -subtracted'.vec p m q) = _
      rw [rows, records, cleared, opposite, cast]
      by_cases target : q = j
      · rw [target, Function.update_self, Function.update_self, Function.update_self, neg_add,
          neg_smul, neg_neg]
        rfl
      · rw [Function.update_of_ne target, Function.update_of_ne target,
          Function.update_of_ne target]
        rfl

theorem reduceRows_ok (h : s.Shaped p r n m) (hi : image.Shaped p k n)
    (hc : combination.Shaped p k' m) {i : Nat} (image_row : i < k) (combination_row : i < k')
    {pivot : Pivot} (found : pivotOf (image.vec p n i) i = some pivot) :
    ∃ s', s.reduceRows image combination pivot = .ok s' ∧ s'.Shaped p r n m ∧
      ∀ j, j < r → s'.pair p n m j =
        clear (Pair.vector p n m) (image.vec p n i, combination.vec p m i) (s.pair p n m j) := by
  obtain ⟨s', run, final, pairs⟩ := foldRows_ok (P := fun s : Reduction e => s.Shaped p r n m)
    (v := fun s => s.pair p n m) (f := fun s j => s.reduceRow image combination pivot j)
    (g := fun _ => clear (Pair.vector p n m) (image.vec p n i, combination.vec p m i))
    (fun s j hj shaped => reduceRow_ok shaped hi hc image_row combination_row hj found) h
  refine ⟨s', ?_, final, fun j hj => (pairs j).trans (if_pos hj)⟩
  rw [reduceRows, h.residues.rows]
  exact run

/-- The rows of `l` when the first `i` rows of `w` have been visited: each is reduced by the rows
that are settled. -/
structure Follows (l : RowMatrix e) (w : Workspace e) (p : SmallPrime) (r n m i : Nat)
    (s : Reduction e) : Prop where
  shaped : s.Shaped p r n m
  pairs : ∀ j, j < r → s.pair p n m j =
    reduce (Pair.vector p n m) (settled (Pair.vector p n m) (w.pair p n m) i) (l.vec p n j, 0)

theorem follows_start {l : RowMatrix e} {w : Workspace e} (h : l.Shaped p r n)
    (supported : e.canStore p = true) (size : m ≤ Storage.maxSize) (fits : Fits e r m) :
    Follows l w p r n m 0 ⟨l, RowMatrix.blank e p r m⟩ where
  shaped := ⟨h, RowMatrix.blank_shaped supported h.rows_le size fits⟩
  pairs j _ := by
    change (l.vec p n j, -(RowMatrix.blank e p r m).vec p m j) = (l.vec p n j, 0)
    rw [RowMatrix.vec_blank, neg_zero]

/-- The follower reduces its rows by every pivot, with the row that the elimination has settled. -/
theorem follow_keeps (l : RowMatrix e) {w : Workspace e} (there : w.combination.isSome = true) :
    Elimination.Keeps follow w p m n fun i s => Follows l w p r n m i s where
  skip i s _ zero follows := by
    refine ⟨follows.shaped, ?_⟩
    intro j hj
    rw [follows.pairs j hj, settled, reduce_append, reduce_cons, reduce_nil]
    exact (clear_of_lead_none (lead_eq_none.mpr zero) _).symm
  step i s v pivot hi found shaped present row follows := by
    obtain ⟨combination, here⟩ := Option.isSome_iff_exists.mp (present.trans there)
    have image_row : v.matrix.vec p n i = (Pair.settled (w.pair p n m) i).1 :=
      congrArg Prod.fst row
    rw [← image_row] at found
    obtain ⟨s', run, final, pairs⟩ := reduceRows_ok follows.shaped shaped.matrix
      (shaped.combination combination here) hi hi found
    refine ⟨s', ?_, final, ?_⟩
    · simp only [follow, here]
      exact run
    · intro j hj
      have pair : (v.matrix.vec p n i, combination.vec p m i) =
          Pair.settled (w.pair p n m) i := by
        rw [← row, Workspace.pair, here]
        rfl
      rw [pairs j hj, follows.pairs j hj, pair, settled, reduce_append, reduce_cons, reduce_nil]
      rfl

def basisRow (b : PivotBasis (RowMatrix e)) (p : SmallPrime) (n m t : Nat) : Pair p n m :=
  (b.image.vec p n t, b.combinations.vec p m t)

/-- A replay passes its checkpoints as the pacer alone would, and reduces by all rows of the basis
before the one that stops it. -/
theorem replay_ok {b : PivotBasis (RowMatrix e)} (hb : b.Shaped p k n m) (pivots : List Pivot)
    (start : Nat) (room : start + pivots.length ≤ k)
    (found : ∀ t pivot, pivots[t]? = some pivot → b.pivots[start + t]? = some pivot)
    (h : s.Shaped p r n m) (pacer : Pacer) :
    let walked := pacer.walk b.rank pivots.length start
    let reached := walked.2.getD (start + pivots.length)
    ∃ s', replay b start s pacer pivots = .ok ⟨(s', walked.1), Pacer.ending walked.2⟩ ∧
      s'.Shaped p r n m ∧ ∀ j, j < r → s'.pair p n m j =
        reduce (Pair.vector p n m)
          ((List.range' start (reached - start)).map (basisRow b p n m)) (s.pair p n m j) := by
  induction pivots generalizing s start pacer with
  | nil =>
    refine ⟨s, rfl, h, ?_⟩
    intro j _
    simp [Pacer.walk]
  | cons pivot rest ih =>
    rw [List.length_cons] at room
    have first := hb.pivots start pivot (found 0 pivot rfl)
    rcases Pacer.checkpoint_cases pacer start b.rank with ⟨next, passed, -⟩ | ⟨stopped, -⟩
    · obtain ⟨reduced, run, shaped, pairs⟩ :=
        reduceRows_ok h hb.image hb.combinations (i := start) (by omega) (by omega) first
      have later (t : Nat) (other : Pivot) (place : rest[t]? = some other) :
          b.pivots[start + 1 + t]? = some other := by
        rw [Nat.add_right_comm, Nat.add_assoc]
        exact found (t + 1) other place
      obtain ⟨s', replayed, final, others⟩ := ih (start + 1) (by omega) later shaped next
      have forward := next.le_reached b.rank rest.length (start + 1)
      simp only [List.length_cons, Pacer.walk, passed, replay, run, replayed, bind, Except.bind]
      refine ⟨s', rfl, final, ?_⟩
      intro j hj
      have total : start + (rest.length + 1) = start + 1 + rest.length := by omega
      simp only [others j hj, pairs j hj, total, Pacer.range_reached forward, List.map_cons,
        reduce_cons, basisRow]
    · simp only [List.length_cons, Pacer.walk, stopped, replay]
      refine ⟨s, rfl, h, ?_⟩
      intro j _
      simp

end RowReduction.Reduction
