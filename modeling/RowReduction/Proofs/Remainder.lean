import Mathlib
import RowReduction.Proofs.Settling

/-!
The remainder of a vector after it is reduced by all settled rows, together with the record of
what was added to it. It vanishes in every leading column, so it is zero exactly for the vectors
in the span of the rows, and dependent rows take no part in it.
-/
namespace RowReduction.EchelonForm

variable {K : Type*} [Field K] [DecidableEq K] {n m : Nat} {vectors : Nat → Fin n → K}

variable (K n) in
abbrev plain : (Fin n → K) →ₗ[K] Fin n → K := LinearMap.id

/-- What elimination adds to a vector lies in the span of the rows, and what it leaves vanishes in
the leading columns. -/
theorem reduce_settled_eq_zero {i : Nat} {x : Fin n → K} :
    reduce (plain K n) (settled (plain K n) vectors i) x = 0 ↔
      x ∈ Submodule.span K (vectors '' Set.Iio i) := by
  rw [← span_settled (plain K n)]
  have change := reduce_sub_mem (plain K n)
    (Submodule.span K {r | r ∈ settled (plain K n) vectors i}) (settled (plain K n) vectors i)
    (fun _ member _ => Submodule.subset_span member) x
  constructor
  · intro zero
    rw [zero, zero_sub] at change
    exact (Submodule.neg_mem_iff _).mp change
  · intro member
    have inside : reduce (plain K n) (settled (plain K n) vectors i) x ∈
        Submodule.span K {r | r ∈ settled (plain K n) vectors i} := by
      have sum := Submodule.add_mem _ change member
      rwa [sub_add_cancel] at sum
    have zero_rows := mem_span_zero_rows (isEchelon_settled i) inside
      fun r settled c leads => view_reduce_lead (isEchelon_settled i) settled leads x
    rw [← Submodule.mem_bot K, ← Submodule.span_zero_singleton K]
    exact Submodule.span_mono (fun r zero => zero.2) zero_rows

/-- The vector that is left of `x` with the record of what was added to it. -/
def remainder (vectors : Nat → Fin n → K) (m : Nat) (x : Fin n → K) :
    (Fin n → K) × (Fin m → K) :=
  reduce (LinearMap.fst K _ _) (settled (LinearMap.fst K _ _) (recorded vectors m) m) (x, 0)

theorem settled_fst (i : Nat) :
    (settled (LinearMap.fst K _ _) (recorded vectors m) i).map
      (LinearMap.fst K (Fin n → K) (Fin m → K)) = settled (plain K n) vectors i :=
  settled_map (LinearMap.fst K _ _) (recorded vectors m) (plain K n) (LinearMap.fst K _ _)
    (fun _ => rfl) i

theorem remainder_fst (x : Fin n → K) : (remainder vectors m x).1 =
    reduce (plain K n) (settled (plain K n) vectors m) x := by
  rw [← settled_fst (m := m) m]
  exact reduce_map (LinearMap.fst K (Fin n → K) (Fin m → K)) (plain K n) (LinearMap.fst K _ _)
    (fun _ => rfl) _ (x, 0)

theorem settledRow_fst (j : Nat) :
    (settledRow (LinearMap.fst K _ _) (recorded vectors m) j).1 =
      settledRow (plain K n) vectors j :=
  settledRow_map (LinearMap.fst K (Fin n → K) (Fin m → K)) (recorded vectors m) (plain K n)
    (LinearMap.fst K _ _) (fun _ => rfl) j

variable (vectors m) in
theorem remainder_honest (x : Fin n → K) : (remainder vectors m x).1 =
    x + ∑ j : Fin m, (remainder vectors m x).2 j • vectors j := by
  have change := reduce_sub_mem (LinearMap.fst K (Fin n → K) (Fin m → K))
    (honest vectors m) (settled (LinearMap.fst K _ _) (recorded vectors m) m) (by
      intro r settled _
      obtain ⟨q, hq, rfl⟩ := mem_settled.mp settled
      exact settledRow_honest hq) (x, 0)
  have sum := mem_honest.mp change
  rw [Prod.fst_sub, Prod.snd_sub, sub_zero, sub_eq_iff_eq_add'] at sum
  exact sum

theorem remainder_column {q : Nat} (hq : q < m) {c : Fin n}
    (leads : lead (settledRow (LinearMap.fst K _ _) (recorded vectors m) q).1 = some c)
    (x : Fin n → K) : (remainder vectors m x).1 c = 0 := by
  have vanishes : LinearMap.fst K (Fin n → K) (Fin m → K) (remainder vectors m x) c = 0 :=
    view_reduce_lead (isEchelon_settled m) (mem_settled.mpr ⟨q, hq, rfl⟩) leads (x, 0)
  exact vanishes

theorem remainder_eq_zero {x : Fin n → K} : (remainder vectors m x).1 = 0 ↔
    x ∈ Submodule.span K (vectors '' Set.Iio m) := by
  rw [remainder_fst, reduce_settled_eq_zero]

/-- A row becomes zero exactly if it depends on earlier ones. -/
theorem settledRow_eq_zero {q : Nat} :
    (settledRow (LinearMap.fst K _ _) (recorded vectors m) q).1 = 0 ↔
      vectors q ∈ Submodule.span K (vectors '' Set.Iio q) := by
  rw [settledRow_fst, settledRow, reduce_settled_eq_zero]

/-- A row that depends on earlier ones is never added. -/
theorem remainder_dependent {l : Fin m}
    (zero : (settledRow (LinearMap.fst K _ _) (recorded vectors m) l).1 = 0) (x : Fin n → K) :
    (remainder vectors m x).2 l = 0 := by
  have change := reduce_sub_mem (LinearMap.fst K (Fin n → K) (Fin m → K))
    (LinearMap.ker (LinearMap.proj l ∘ₗ LinearMap.snd K _ _))
    (settled (LinearMap.fst K _ _) (recorded vectors m) m) (by
      intro r settled nonzero
      obtain ⟨q, hq, rfl⟩ := mem_settled.mp settled
      have apart : l.val ≠ q := by
        rintro rfl
        exact nonzero zero
      exact (record_settledRow q l (Or.inr zero)).trans (if_neg apart)) (x, 0)
  have entry : (remainder vectors m x).2 l - 0 = 0 := change
  rwa [sub_zero] at entry

end RowReduction.EchelonForm
