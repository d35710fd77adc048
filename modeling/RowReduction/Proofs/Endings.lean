import Mathlib
import RowReduction.Proofs.Preimages
import RowReduction.Proofs.Preservation
import RowReduction.Proofs.Quotient
import RowReduction.Proofs.Replay

/-!
How the reductions end. A call on well-formed matrices that is answered was refused storage before
anything was changed, was interrupted, or is complete. Each way is described once, by what the call
leaves and answers, and whatever holds of all calls is then shown by cases.
-/
namespace RowReduction

namespace RowMatrix

variable [Storage.Memory] {e : Encoding} {a l m image : RowMatrix e} {pacer : Pacer}

inductive SplitEnd (a : RowMatrix e) (wanted : Wanted) (pacer : Pacer) :
    Outcome (RowMatrix e × Pacer) ReductionError (Splitting (RowMatrix e)) → Prop where
  | refused {cells bytes : Nat} :
      SplitEnd a wanted pacer ⟨(a, pacer), .error (.storage (.outOfMemory cells bytes))⟩
  | interrupted {row : Nat} {left : RowMatrix e} (inside : row ≤ a.rows)
      (visited : a.HoldsVisited row left) :
      SplitEnd a wanted pacer ⟨(left, pacer.afterRows a.rows), .error .interrupted⟩
  | complete {left : RowMatrix e} {d : Splitting (RowMatrix e)}
      (splits : a.SplitsInto wanted left d) :
      SplitEnd a wanted pacer ⟨(left, pacer.afterRows a.rows), .ok d⟩

theorem split_end (wf : a.WellFormed) {wanted : Wanted}
    {outcome : Outcome (RowMatrix e × Pacer) ReductionError (Splitting (RowMatrix e))}
    (call : a.split wanted pacer = .ok outcome) : SplitEnd a wanted pacer outcome := by
  by_cases refused : wanted ≠ .nothing ∧ ¬ Fits e a.rows a.rows
  · obtain ⟨_, _, run⟩ := split_refused wf refused.1 refused.2 pacer
    cases run.symm.trans call
    exact .refused
  · have fits (something : wanted ≠ .nothing) : Fits e a.rows a.rows :=
      not_not.mp fun large => refused ⟨something, large⟩
    cases stop : pacer.stopRow a.rows with
    | some row =>
      obtain ⟨left, run, visited⟩ := split_interrupted wf fits stop
      cases run.symm.trans call
      have inside := (pacer.walk_range a.rows a.rows 0 stop).2
      exact .interrupted (by omega) visited
    | none =>
      obtain ⟨left, d, run, splits⟩ := split_ok wf fits stop
      cases run.symm.trans call
      exact .complete splits

inductive PreimagesEnd (a l : RowMatrix e) (pacer : Pacer) :
    Outcome (PreimageState e) ReductionError (RowMatrix e) → Prop where
  | unequal (widths : a.columns ≠ l.columns) :
      PreimagesEnd a l pacer
        ⟨⟨a, l, pacer⟩, .error (.storage (.widthMismatch a.columns l.columns))⟩
  | refused {cells bytes : Nat} :
      PreimagesEnd a l pacer ⟨⟨a, l, pacer⟩, .error (.storage (.outOfMemory cells bytes))⟩
  | interrupted {row : Nat} {left residues subtracted : RowMatrix e} (inside : row ≤ a.rows)
      (visited : a.HoldsVisited row left)
      (reduces : a.ReducesBefore l residues subtracted l.rows row) :
      PreimagesEnd a l pacer ⟨⟨left, residues, pacer.afterRows a.rows⟩, .error .interrupted⟩
  | complete {left residues answer : RowMatrix e} (holds : a.HoldsImage left)
      (reduces : a.Reduces l residues answer l.rows) :
      PreimagesEnd a l pacer ⟨⟨left, residues, pacer.afterRows a.rows⟩, .ok answer⟩

theorem preimages_end (wf : a.WellFormed) (wf' : l.WellFormed)
    {outcome : Outcome (PreimageState e) ReductionError (RowMatrix e)}
    (call : a.preimages l pacer = .ok outcome) : PreimagesEnd a l pacer outcome := by
  have primes : a.prime = l.prime := by
    unfold preimages at call
    simp only [check_bind_eq_ok, require_eq_ok, decide_eq_true_eq] at call
    exact call.1
  by_cases widths : a.columns = l.columns
  · have hl : l.Shaped a.prime l.rows a.columns := ⟨wf', primes.symm, rfl, widths.symm⟩
    by_cases fits : Fits e l.rows a.rows ∧ Fits e a.rows a.rows
    · cases stop : pacer.stopRow a.rows with
      | some row =>
        obtain ⟨left, residues, subtracted, run, visited, reduces⟩ :=
          preimages_interrupted wf hl fits.1 fits.2 stop
        cases run.symm.trans call
        have inside := (pacer.walk_range a.rows a.rows 0 stop).2
        exact .interrupted (by omega) visited reduces
      | none =>
        obtain ⟨left, residues, answer, run, holds, reduces⟩ :=
          preimages_ok wf hl fits.1 fits.2 stop
        cases run.symm.trans call
        exact .complete holds reduces
    · obtain ⟨_, _, run⟩ := preimages_refused wf hl fits pacer
      cases run.symm.trans call
      exact .refused
  · cases (preimages_of_widths_ne primes widths pacer).symm.trans call
    exact .unequal widths

/-- A quotient basis can be interrupted in each of its two passes. -/
inductive QuotientEnd (m image : RowMatrix e) (pacer : Pacer) :
    Outcome (RowMatrix e × Pacer) ReductionError Unit → Prop where
  | unequal (widths : m.columns ≠ image.columns) :
      QuotientEnd m image pacer
        ⟨(m, pacer), .error (.storage (.widthMismatch m.columns image.columns))⟩
  | stoppedFirst {row : Nat} {left : RowMatrix e} {after : Pacer} (inside : row ≤ image.rows)
      (reduced : m.ReducedBy image row left) :
      QuotientEnd m image pacer ⟨(left, after), .error .interrupted⟩
  | stoppedSecond {row : Nat} {reduced left : RowMatrix e} {after : Pacer} (inside : row ≤ m.rows)
      (result : m.ReducedBy image image.rows reduced) (visited : reduced.HoldsVisited row left) :
      QuotientEnd m image pacer ⟨(left, after), .error .interrupted⟩
  | complete {reduced left : RowMatrix e} {after : Pacer}
      (result : m.ReducedBy image image.rows reduced) (holds : reduced.HoldsImage left) :
      QuotientEnd m image pacer ⟨(left, after), .ok ()⟩

theorem quotientBasis_end (wf : m.WellFormed) (wf' : image.WellFormed)
    {outcome : Outcome (RowMatrix e × Pacer) ReductionError Unit}
    (call : m.quotientBasis image pacer = .ok outcome) : QuotientEnd m image pacer outcome := by
  have primes : image.prime = m.prime := by
    unfold quotientBasis at call
    simp only [check_bind_eq_ok, require_eq_ok, decide_eq_true_eq] at call
    exact call.1
  by_cases widths : m.columns = image.columns
  · have hi : image.Shaped m.prime image.rows m.columns := ⟨wf', primes, rfl, widths.symm⟩
    cases first : pacer.stopRow image.rows with
    | some row =>
      obtain ⟨left, run, reduced⟩ := quotientBasis_stopped_first wf hi first
      cases run.symm.trans call
      have inside := (pacer.walk_range image.rows image.rows 0 first).2
      exact .stoppedFirst (by omega) reduced
    | none =>
      cases second : (pacer.afterRows image.rows).endPass.stopRow m.rows with
      | some row =>
        obtain ⟨reduced, left, run, result, visited⟩ :=
          quotientBasis_stopped_second wf hi first second
        cases run.symm.trans call
        have inside :=
          ((pacer.afterRows image.rows).endPass.walk_range m.rows m.rows 0 second).2
        exact .stoppedSecond (by omega) result visited
      | none =>
        obtain ⟨reduced, left, run, result, holds⟩ := quotientBasis_ok wf hi first second
        cases run.symm.trans call
        exact .complete result holds
  · cases (quotientBasis_of_widths_ne primes widths pacer).symm.trans call
    exact .unequal widths

end RowMatrix

namespace PivotBasis

variable [Storage.Memory] {e : Encoding} {p : SmallPrime} {k m n r : Nat}
  {b : PivotBasis (RowMatrix e)} {l : RowMatrix e} {pacer : Pacer}

inductive ReplayEnd (b : PivotBasis (RowMatrix e)) (l : RowMatrix e) (p : SmallPrime)
    (k r n m : Nat) (pacer : Pacer) :
    Outcome (RowMatrix e × Pacer) ReductionError (RowMatrix e) → Prop where
  | refused {cells bytes : Nat} :
      ReplayEnd b l p k r n m pacer ⟨(l, pacer), .error (.storage (.outOfMemory cells bytes))⟩
  | interrupted {row : Nat} {s : Reduction e} (inside : row ≤ k)
      (replays : b.Replays l p row r n m s) :
      ReplayEnd b l p k r n m pacer ⟨(s.residues, pacer.afterRows k), .error .interrupted⟩
  | complete {s : Reduction e} (replays : b.Replays l p k r n m s) :
      ReplayEnd b l p k r n m pacer ⟨(s.residues, pacer.afterRows k), .ok s.subtracted⟩

theorem preimages_end (hb : b.Shaped p k n m) (hl : l.Shaped p r n)
    {outcome : Outcome (RowMatrix e × Pacer) ReductionError (RowMatrix e)}
    (call : b.preimages l pacer = .ok outcome) : ReplayEnd b l p k r n m pacer outcome := by
  by_cases fits : Fits e r m
  · cases stop : pacer.stopRow k with
    | some row =>
      obtain ⟨s, run, replays⟩ := preimages_interrupted hb hl fits stop
      cases run.symm.trans call
      have inside := (pacer.walk_range k k 0 stop).2
      exact .interrupted (by omega) replays
    | none =>
      obtain ⟨s, run, replays⟩ := preimages_ok hb hl fits stop
      cases run.symm.trans call
      exact .complete replays
  · obtain ⟨_, _, run⟩ := preimages_refused hb hl fits pacer
    cases run.symm.trans call
    exact .refused

end PivotBasis

end RowReduction
