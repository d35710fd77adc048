import Mathlib
import RowReduction.Elimination
import RowReduction.Proofs.Construction
import RowReduction.Proofs.Settling

/-!
Row operations on a workspace. A row of the matrix and the row of the change of basis beside it are
changed as one pair, by the clearing of linear algebra. The dual takes part with source and target
exchanged, so only its pivot rows change.
-/
namespace RowReduction

open EchelonForm

variable {e : Encoding} {p : SmallPrime} {m n : Nat}

/-- A row vector and the record of how it was combined. -/
abbrev Pair (p : SmallPrime) (n m : Nat) : Type := (Fin n → Residue p) × (Fin m → Residue p)

/-- The vector of a pair. -/
abbrev Pair.vector (p : SmallPrime) (n m : Nat) : Pair p n m →ₗ[Residue p] Fin n → Residue p :=
  LinearMap.fst (Residue p) (Fin n → Residue p) (Fin m → Residue p)

/-- The pivot of row `i` with vector `v`, if `v` is not zero. -/
def pivotOf (v : Fin n → Residue p) (i : Nat) : Option Pivot :=
  (lead v).map fun c : Fin n => (⟨i, c.val, (-(v c)⁻¹).val⟩ : Pivot)

theorem pivotOf_eq_none {v : Fin n → Residue p} {i : Nat} : pivotOf v i = none ↔ v = 0 := by
  rw [pivotOf, Option.map_eq_none_iff, lead_eq_none]

theorem pivotOf_eq_some {v : Fin n → Residue p} {i : Nat} {pivot : Pivot} :
    pivotOf v i = some pivot ↔
      ∃ c : Fin n, lead v = some c ∧ pivot = ⟨i, c.val, (-(v c)⁻¹).val⟩ := by
  rw [pivotOf, Option.map_eq_some_iff]
  constructor
  · rintro ⟨c, leads, rfl⟩
    exact ⟨c, leads, rfl⟩
  · rintro ⟨c, leads, rfl⟩
    exact ⟨c, leads, rfl⟩

namespace RowMatrix

def companion (o : Option (RowMatrix e)) (p : SmallPrime) (m i : Nat) : Fin m → Residue p :=
  o.elim 0 fun u => u.vec p m i

/-- A matrix takes part in a row operation if it is there. -/
theorem companion_addRow [Storage.Memory] (o : Option (RowMatrix e))
    (shaped : ∀ u ∈ o, u.Shaped p m m) {t s : Nat} (ht : t < m) (hs : s < m) (apart : t ≠ s)
    (c : Nat) :
    ∃ o', o.mapM (fun u : RowMatrix e => u.addRow t s c 0) = .ok o' ∧ o'.isSome = o.isSome ∧
      (∀ u ∈ o', u.Shaped p m m) ∧
      companion o' p m = Function.update (companion o p m) t
        (companion o p m t + (c : Residue p) • companion o p m s) := by
  cases o with
  | none =>
    refine ⟨none, rfl, rfl, by simp, ?_⟩
    have zero : companion (e := e) none p m = 0 := rfl
    rw [zero, Pi.zero_apply, Pi.zero_apply, smul_zero, add_zero]
    exact (Function.update_eq_self t (0 : Nat → Fin m → Residue p)).symm
  | some u =>
    obtain ⟨u', added, final, rows⟩ :=
      (shaped u rfl).addRow_ok ht hs apart c 0 (by simp)
    refine ⟨some u', ?_, rfl, ?_, rows⟩
    · simp only [Option.mapM_some, added]
      rfl
    · intro v hv
      rw [← Option.mem_some.mp hv]
      exact final

end RowMatrix

namespace Workspace

variable [Storage.Memory]

structure Shaped (w : Workspace e) (p : SmallPrime) (m n : Nat) : Prop where
  matrix : w.matrix.Shaped p m n
  combination : ∀ u ∈ w.combination, u.Shaped p m m
  dual : ∀ d ∈ w.dual, d.Shaped p m m

def pair (w : Workspace e) (p : SmallPrime) (n m i : Nat) : Pair p n m :=
  (w.matrix.vec p n i, RowMatrix.companion w.combination p m i)

/-- What operations with pivot row `i` leave alone. -/
structure Keeps (w w' : Workspace e) (p : SmallPrime) (m i : Nat) : Prop where
  combination : w'.combination.isSome = w.combination.isSome
  dual : w'.dual.isSome = w.dual.isSome
  dual_rows : ∀ k, k ≠ i →
    RowMatrix.companion w'.dual p m k = RowMatrix.companion w.dual p m k

/-- Row `i` has cleared its leading column from all rows below it. -/
structure Clears (w w' : Workspace e) (p : SmallPrime) (m n i : Nat) : Prop where
  shaped : w'.Shaped p m n
  keeps : w.Keeps w' p m i
  pairs : ∀ j, w'.pair p n m j = if i < j ∧ j < m then
    clear (Pair.vector p n m) (w.pair p n m i) (w.pair p n m j) else w.pair p n m j

omit [Storage.Memory] in
theorem Keeps.refl (w : Workspace e) (i : Nat) : w.Keeps w p m i := ⟨rfl, rfl, fun _ _ => rfl⟩

omit [Storage.Memory] in
theorem Keeps.trans {w w' w'' : Workspace e} {i : Nat} (first : w.Keeps w' p m i)
    (second : w'.Keeps w'' p m i) : w.Keeps w'' p m i where
  combination := second.combination.trans first.combination
  dual := second.dual.trans first.dual
  dual_rows k hk := (second.dual_rows k hk).trans (first.dual_rows k hk)

namespace Shaped

variable {w : Workspace e}

/-- Clearing an entry clears the whole pair by the pair of the pivot row. -/
theorem clearEntry_ok (h : w.Shaped p m n) {i j : Nat} (below : i < j) (hj : j < m) {pivot : Pivot}
    (found : pivotOf (w.matrix.vec p n i) i = some pivot) :
    ∃ w', w.clearEntry pivot j = .ok w' ∧ w'.Shaped p m n ∧ w.Keeps w' p m i ∧
      w'.pair p n m = Function.update (w.pair p n m) j
        (clear (Pair.vector p n m) (w.pair p n m i) (w.pair p n m j)) := by
  obtain ⟨c, leads, rfl⟩ := pivotOf_eq_some.mp found
  have hi : i < m := by omega
  have before (d : Fin n) (hd : d.val < c.val) : w.matrix.vec p n i d = 0 :=
    (lead_eq_some.mp leads).2 d hd
  have cleared := clear_of_lead (Pair.vector p n m) (r := w.pair p n m i) leads
    (w.pair p n m j)
  obtain ⟨matrix, combination, dual⟩ := w
  obtain ⟨hmatrix, hcombination, hdual⟩ := h
  simp only [pair] at *
  unfold clearEntry
  simp only [hmatrix.prime, hmatrix.entry_eq hj c, bind, Except.bind]
  by_cases zero : (matrix.vec p n j c).val = 0
  · refine ⟨_, if_pos zero, ⟨hmatrix, hcombination, hdual⟩, .refl _ i, ?_⟩
    have vanishes := (ZMod.val_eq_zero _).mp zero
    rw [clear_of_zero (Pair.vector p n m) leads vanishes]
    exact (Function.update_eq_self _ _).symm
  · rw [if_neg zero]
    have cast := p.cast_product (-(matrix.vec p n i c)⁻¹) (matrix.vec p n j c)
    have small := p.product_lt (-(matrix.vec p n i c)⁻¹).val (matrix.vec p n j c).val
    generalize p.product (-(matrix.vec p n i c)⁻¹).val (matrix.vec p n j c).val = a at cast small ⊢
    obtain ⟨matrix', added, hmatrix', rows⟩ :=
      hmatrix.addRow_ok hj hi (Nat.ne_of_gt below) a c before
    obtain ⟨combination', recorded, same, hcombination', records⟩ :=
      RowMatrix.companion_addRow combination hcombination hj hi (Nat.ne_of_gt below) a
    obtain ⟨b, negated, -, -⟩ := p.neg_eq small
    obtain ⟨dual', followed, present, hdual', dual_rows⟩ :=
      RowMatrix.companion_addRow dual hdual hi hj (Nat.ne_of_lt below) b
    refine ⟨⟨matrix', combination', dual'⟩, ?_, ⟨hmatrix', hcombination', hdual'⟩,
      ⟨same, present, ?_⟩, ?_⟩
    · simp only [added, recorded, negated, followed]
      rfl
    · -- Source and target are exchanged in the dual: its pivot row is the one that changes.
      intro k apart
      rw [dual_rows, Function.update_of_ne apart]
    · funext k
      change (matrix'.vec p n k, RowMatrix.companion combination' p m k) = _
      rw [rows, records, cleared, cast]
      by_cases target : k = j
      · rw [target, Function.update_self, Function.update_self, Function.update_self]
        rfl
      · rw [Function.update_of_ne target, Function.update_of_ne target,
          Function.update_of_ne target]
        rfl

/-- Clearing the pivot's column from rows below it, one after the other: the pivot row stays, so the
pivot fits every one of them. -/
theorem clearRows_ok (h : w.Shaped p m n) {i : Nat} (start count : Nat) (below : i < start)
    (inside : start + count ≤ m) {pivot : Pivot}
    (found : pivotOf (w.matrix.vec p n i) i = some pivot) :
    ∃ w', (List.range' start count).foldlM (fun w j => w.clearEntry pivot j) w = .ok w' ∧
      w'.Shaped p m n ∧ w.Keeps w' p m i ∧
      ∀ j, w'.pair p n m j = if start ≤ j ∧ j < start + count then
        clear (Pair.vector p n m) (w.pair p n m i) (w.pair p n m j) else w.pair p n m j := by
  induction count generalizing w start with
  | zero => exact ⟨w, rfl, h, .refl w i, fun j => by rw [if_neg (by omega)]⟩
  | succ count ih =>
    obtain ⟨next, cleared, shaped, kept, pairs⟩ := h.clearEntry_ok below (by omega) found
    have pivot_row : next.pair p n m i = w.pair p n m i := by
      rw [pairs, Function.update_of_ne (Nat.ne_of_lt below)]
    have still : pivotOf (next.matrix.vec p n i) i = some pivot := by
      rw [← found]
      exact congrArg (fun x : Pair p n m => pivotOf x.1 i) pivot_row
    obtain ⟨w', run, final, others, rows⟩ :=
      ih shaped (start + 1) (Nat.lt_succ_of_lt below) (by omega) still
    refine ⟨w', ?_, final, kept.trans others, ?_⟩
    · rw [List.range'_succ, List.foldlM_cons, cleared]
      exact run
    · intro j
      rw [rows j, pivot_row, pairs]
      by_cases first : j = start
      · rw [if_neg (by omega), if_pos (by omega), first, Function.update_self]
      · rw [Function.update_of_ne first]
        congr 1
        rw [eq_iff_iff]
        omega

theorem clearBelow_ok (h : w.Shaped p m n) {i : Nat} (hi : i < m) {pivot : Pivot}
    (found : pivotOf (w.matrix.vec p n i) i = some pivot) :
    ∃ w', w.clearBelow pivot = .ok w' ∧ w.Clears w' p m n i := by
  obtain ⟨w', run, final, kept, rows⟩ := h.clearRows_ok (i + 1) (m - (i + 1))
    (Nat.lt_succ_self i) (by omega) found
  refine ⟨w', ?_, final, kept, ?_⟩
  · obtain ⟨c, -, rfl⟩ := pivotOf_eq_some.mp found
    rw [clearBelow, h.matrix.rows]
    exact run
  · intro j
    rw [rows j]
    congr 1
    rw [eq_iff_iff]
    omega

end Shaped

end Workspace

end RowReduction
