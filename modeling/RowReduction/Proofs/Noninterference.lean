import Mathlib
import RowReduction.Proofs.Agreement

/-!
What a split computes does not depend on what it is asked for, or on who watches it. One change of
basis serves the kernel and the basis, the dual needs another one, and without outputs none is
carried along; a pacer reports and may stop at rows of its own choice. The rows that are left, the
rank and every output are the same in all calls that are complete.
-/
namespace RowReduction

variable {e : Encoding}

/-- An output that both calls were asked for: both have it, and it is the same. -/
def Shared {α : Type} (asked asked' : Bool) (o o' : Option α) : Prop :=
  asked = true → asked' = true → ∃ x, o = some x ∧ o' = some x

theorem shared_of_isSome {α : Type} {asked asked' : Bool} {o o' : Option α}
    (present : o.isSome = asked) (present' : o'.isSome = asked')
    (equal : ∀ x ∈ o, ∀ y ∈ o', y = x) : Shared asked asked' o o' := by
  rintro rfl rfl
  obtain ⟨x, here⟩ := Option.isSome_iff_exists.mp present
  obtain ⟨y, there⟩ := Option.isSome_iff_exists.mp present'
  cases equal x here y there
  exact ⟨x, here, there⟩

/-- Two splittings of one matrix, of which the first was asked for `wanted` and the second for
`wanted'`. -/
structure Splitting.SharedWith {M : Type} (d d' : Splitting M) (wanted wanted' : Wanted) : Prop where
  rank : d'.rank = d.rank
  kernel : Shared wanted.kernel wanted'.kernel d.kernel d'.kernel
  dual : Shared wanted.dual wanted'.dual d.dual d'.dual
  basis : Shared wanted.basis wanted'.basis d.basis d'.basis

/-- Within one encoding the same entries are stored by the same cells. -/
theorem RowMatrix.Same.eq [Storage.Memory] {m m' : RowMatrix e} (same : m.Same m') : m' = m := by
  apply same.wellFormed'.ext same.wellFormed same.prime same.rows same.columns
  intro i j hi hj
  exact same.entries i j (same.rows ▸ hi) (same.columns ▸ hj)

theorem PivotBasis.Same.eq [Storage.Memory] {b b' : PivotBasis (RowMatrix e)} (same : b.Same b') :
    b' = b := by
  obtain ⟨image, combinations, pivots⟩ := b'
  obtain rfl : image = b.image := same.image.eq
  obtain rfl : combinations = b.combinations := same.combinations.eq
  obtain rfl : pivots = b.pivots := same.pivots
  rfl

namespace RowMatrix

section

variable [Storage.Memory] {a left left' : RowMatrix e} {wanted wanted' : Wanted}
  {d d' : Splitting (RowMatrix e)}

/-- Whatever a complete split is asked for, it leaves the same rows and answers with parts of the
same splitting. -/
theorem SplitsInto.shared (wf : a.WellFormed) (splits : a.SplitsInto wanted left d)
    (splits' : a.SplitsInto wanted' left' d') :
    left' = left ∧ d.SharedWith d' wanted wanted' := by
  have images := wf.same.image splits.image splits'.image
  refine ⟨images.eq, ?_⟩
  constructor
  case rank => simp only [splits.rank, splits'.rank]
  case kernel =>
    apply shared_of_isSome splits.kernel_isSome splits'.kernel_isSome
    intro x hx y hy
    exact (wf.same.kernel (splits.kernel x hx) (splits'.kernel y hy)).eq
  case dual =>
    apply shared_of_isSome splits.dual_isSome splits'.dual_isSome
    intro x hx y hy
    exact (wf.same.dual (splits.dual x hx) (splits'.dual y hy)).eq
  case basis =>
    apply shared_of_isSome splits.basis_isSome splits'.basis_isSome
    intro x hx y hy
    exact (wf.same.basis images (splits.basis x hx) (splits'.basis y hy)).eq

/-- Two splits of one matrix, asked for different outputs under different pacers. If both are
complete, they leave the same matrix and agree on every output that both were asked for. -/
theorem split_noninterfering (wf : a.WellFormed) (wanted wanted' : Wanted) (pacer pacer' : Pacer) :
    Ends (a.split wanted pacer) (wanted ≠ .nothing ∧ ¬ Fits e a.rows a.rows)
      (pacer.stopRow a.rows ≠ none)
      fun state d => Ends (a.split wanted' pacer') (wanted' ≠ .nothing ∧ ¬ Fits e a.rows a.rows)
        (pacer'.stopRow a.rows ≠ none)
        fun state' d' => state'.1 = state.1 ∧ d.SharedWith d' wanted wanted' := by
  apply (split_ends wf wanted pacer).imp id id
  intro state d splits
  apply (split_ends wf wanted' pacer').imp id id
  intro state' d' splits'
  exact splits.shared wf splits'

end

theorem split_noninterfering_of_sample :
    let a := tabulate .batched ⟨3, by decide, by decide⟩ 4 5 fun i j => i * j + i
    a.WellFormed ∧ ∀ wanted wanted' pacer pacer',
      Ends (a.split wanted pacer) (wanted ≠ .nothing ∧ ¬ Fits .batched a.rows a.rows)
        (pacer.stopRow a.rows ≠ none)
        fun state d => Ends (a.split wanted' pacer')
          (wanted' ≠ .nothing ∧ ¬ Fits .batched a.rows a.rows) (pacer'.stopRow a.rows ≠ none)
          fun state' d' => state'.1 = state.1 ∧ d.SharedWith d' wanted wanted' := by
  intro a
  have ha : a.Shaped ⟨3, by decide, by decide⟩ 4 5 :=
    tabulate_shaped (by decide) (by decide) (by decide) (by decide) _
  exact ⟨ha.wellFormed, split_noninterfering ha.wellFormed⟩

end RowMatrix

end RowReduction
