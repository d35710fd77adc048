import Mathlib
import RowReduction.Proofs.Conversion
import RowReduction.Proofs.ObtainedBases
import RowReduction.Proofs.Schedules

/-!
The reports of every reduction. A reduction loops over the rows of a matrix, or over the pivots of a
basis, and a quotient over those of the image and then over its own, with a report between them that
is delivered without a look at the flag. If the flag was raised before the call, an interrupted one
stops at row 0, where nothing has been changed yet.
-/
namespace RowReduction

open EchelonForm

/-- A call adds what is delivered of its schedule to the reports of the pacer, and it is interrupted
exactly if the flag is looked at once it was raised. What an interrupted call leaves is untouched if
the flag was raised before. -/
def Follows {σ α : Type} (call : Checked (Outcome σ ReductionError α)) (pacerOf : σ → Pacer)
    (pacer : Pacer) (scheduled : List Report) (untouched : σ → Prop) : Prop :=
  ∃ outcome, call = .ok outcome ∧
    (pacerOf outcome.state).reports.toList =
      pacer.reports.toList ++ deliveredOf scheduled (pacer.raisedAfter scheduled) ∧
    (if stopsIn scheduled (pacer.raisedAfter scheduled)
      then outcome.answer = .error .interrupted
      else ∃ answer, outcome.answer = .ok answer) ∧
    (pacer.mustStop = true → outcome.answer = .error .interrupted → untouched outcome.state)

section Loops

variable {σ α : Type} {call : Checked (Outcome σ ReductionError α)} {pacerOf : σ → Pacer}
  {pacer : Pacer} {listener : Listener} {shift : Nat} {untouched : σ → Prop}

/-- A call with one loop follows the schedule of the loop. -/
theorem follows_of_loop (listens : pacer.listener = some listener)
    (sampled : pacer.mask = (1 <<< shift) - 1) {total : Nat}
    (complete : pacer.stopRow total = none → ∃ state answer, call = .ok ⟨state, .ok answer⟩ ∧
      pacerOf state = pacer.afterRows total)
    (interrupted : ∀ row, pacer.stopRow total = some row →
      ∃ state, call = .ok ⟨state, .error .interrupted⟩ ∧
        pacerOf state = pacer.afterRows total ∧ (row = 0 → untouched state)) :
    Follows call pacerOf pacer (schedule shift total) untouched := by
  obtain ⟨reports, stops⟩ := Pacer.play_eq listens (schedule shift total)
  rw [← Pacer.afterRows_eq_play sampled] at reports
  rw [← Pacer.stopRow_isSome sampled] at stops
  cases stop : pacer.stopRow total with
  | none =>
    obtain ⟨state, answer, run, pacing⟩ := complete stop
    rw [stop] at stops
    refine ⟨_, run, by rw [pacing, reports], ?_, fun _ => nofun⟩
    rw [← stops]
    exact ⟨answer, rfl⟩
  | some row =>
    obtain ⟨state, run, pacing, left⟩ := interrupted row stop
    rw [stop] at stops
    refine ⟨_, run, by rw [pacing, reports], ?_, ?_⟩
    · rw [← stops]
      rfl
    · exact fun raised _ => left (Pacer.row_eq_zero_of_mustStop raised stop)

/-- A call with two loops and a report between them follows their schedules. -/
theorem follows_of_loops (listens : pacer.listener = some listener)
    (sampled : pacer.mask = (1 <<< shift) - 1) {first second : Nat}
    (complete : pacer.stopRow first = none →
      (pacer.afterRows first).endPass.stopRow second = none →
        ∃ state answer, call = .ok ⟨state, .ok answer⟩ ∧
          pacerOf state = (pacer.afterRows first).endPass.afterRows second)
    (stopped_first : ∀ row, pacer.stopRow first = some row →
      ∃ state, call = .ok ⟨state, .error .interrupted⟩ ∧
        pacerOf state = pacer.afterRows first ∧ (row = 0 → untouched state))
    (stopped_second : pacer.stopRow first = none →
      ∀ row, (pacer.afterRows first).endPass.stopRow second = some row →
        ∃ state, call = .ok ⟨state, .error .interrupted⟩ ∧
          pacerOf state = (pacer.afterRows first).endPass.afterRows second ∧
          (first = 0 → row = 0 → untouched state)) :
    Follows call pacerOf pacer (schedule shift first ++ .endOfPass :: schedule shift second)
      untouched := by
  obtain ⟨reports, stops⟩ :=
    Pacer.play_eq listens (schedule shift first ++ .endOfPass :: schedule shift second)
  rw [Pacer.play_append, ← Pacer.stopRow_isSome sampled] at reports stops
  cases stop : pacer.stopRow first with
  | some row =>
    obtain ⟨state, run, pacing, left⟩ := stopped_first row stop
    rw [stop, Option.isSome_some, if_pos rfl] at reports stops
    rw [← Pacer.afterRows_eq_play sampled] at reports
    rw [← Pacer.stopRow_isSome sampled, stop] at stops
    refine ⟨_, run, by rw [pacing, reports], ?_, ?_⟩
    · rw [← stops]
      rfl
    · exact fun raised _ => left (Pacer.row_eq_zero_of_mustStop raised stop)
  | none =>
    have between : (pacer.afterRows first).endPass.mask = (1 <<< shift) - 1 := by
      rw [Pacer.endPass, Pacer.deliver_mask, Pacer.afterRows_eq_play sampled, Pacer.play_mask,
        sampled]
    have passed : (Report.endOfPass.polls && (pacer.afterRows first).mustStop) = false := rfl
    rw [stop, Option.isSome_none, if_neg Bool.false_ne_true, ← Pacer.afterRows_eq_play sampled,
      Pacer.play_cons passed] at reports stops
    rw [← Pacer.endPass, ← Pacer.afterRows_eq_play between] at reports
    rw [← Pacer.endPass, ← Pacer.stopRow_isSome between] at stops
    cases again : (pacer.afterRows first).endPass.stopRow second with
    | none =>
      obtain ⟨state, answer, run, pacing⟩ := complete stop again
      rw [again] at stops
      refine ⟨_, run, by rw [pacing, reports], ?_, fun _ => nofun⟩
      rw [← stops]
      exact ⟨answer, rfl⟩
    | some row =>
      obtain ⟨state, run, pacing, left⟩ := stopped_second stop row again
      rw [again] at stops
      refine ⟨_, run, by rw [pacing, reports], ?_, ?_⟩
      · rw [← stops]
        rfl
      · intro raised _
        -- The first loop has no row 0 to stop at, and the flag is still raised after it.
        obtain rfl := Pacer.total_eq_zero_of_mustStop raised stop
        have still : (pacer.afterRows 0).endPass.mustStop = true :=
          Pacer.mustStop_deliver_of_mustStop listens raised .endOfPass
        exact left rfl (Pacer.row_eq_zero_of_mustStop still again)

end Loops

section Untouched

variable [Storage.Memory] {e : Encoding}

namespace RowMatrix

variable {a l m image left residues subtracted : RowMatrix e} {r : Nat}

theorem HoldsVisited.eq_of_zero (visited : a.HoldsVisited 0 left) (wf : a.WellFormed) :
    left = a := by
  apply visited.shaped.ext wf.shaped
  intro q inside
  rw [visited.others q (Nat.zero_le q) inside, stage_zero]
  rfl

theorem ReducesBefore.eq_of_zero (reduces : a.ReducesBefore l residues subtracted r 0)
    (hl : l.Shaped a.prime r a.columns) : residues = l :=
  reduces.residues_shaped.ext hl fun j hj => congrArg Prod.fst (reduces.pairs j hj)

theorem ReducedBy.eq_of_zero (reduced : m.ReducedBy image 0 left) (wf : m.WellFormed) :
    left = m :=
  reduced.shaped.ext wf.shaped fun j hj => reduced.rows j hj

end RowMatrix

theorem PivotBasis.Replays.eq_of_zero {b : PivotBasis (RowMatrix e)} {l : RowMatrix e}
    {p : SmallPrime} {r n m : Nat} {s : Reduction e} (replays : b.Replays l p 0 r n m s)
    (hl : l.Shaped p r n) : s.residues = l :=
  replays.shaped.residues.ext hl fun _ hj => replays.residue_eq hj

end Untouched

section Calls

section

variable [Storage.Memory] {m l : EncodedMatrix} {pacer : Pacer} {listener : Listener} {shift : Nat}

theorem EncodedMatrix.split_follows (wf : m.matrix.WellFormed)
    (listens : pacer.listener = some listener) (sampled : pacer.mask = (1 <<< shift) - 1)
    (wanted : Wanted) (fits : wanted ≠ .nothing → Fits m.encoding m.rows m.rows) :
    Follows (m.split wanted pacer) (fun s => s.2) pacer (schedule shift m.rows)
      fun s => s.1 = m := by
  refine follows_of_loop listens sampled ?_ ?_
  · intro stop
    obtain ⟨left, d, call, -⟩ := RowMatrix.split_ok wf fits stop
    exact ⟨_, _, split_of_row call, rfl⟩
  · intro row stop
    obtain ⟨left, call, visited⟩ := RowMatrix.split_interrupted wf fits stop
    refine ⟨_, split_of_row call, rfl, ?_⟩
    rintro rfl
    rw [visited.eq_of_zero wf]

/-- The matrices that an interrupted call leaves are the given ones, and the rows to be reduced may
have been stored in the other encoding. -/
theorem EncodedMatrix.preimages_follows (wf : m.matrix.WellFormed) (wf' : l.matrix.WellFormed)
    (primes : l.prime = m.prime) (widths : m.columns = l.columns)
    (listens : pacer.listener = some listener) (sampled : pacer.mask = (1 <<< shift) - 1)
    (stored : Fits m.encoding l.rows l.columns) (fits : Fits m.encoding l.rows m.rows)
    (square : Fits m.encoding m.rows m.rows) :
    Follows (m.preimages l pacer) (fun s => s.pacer) pacer (schedule shift m.rows)
      fun s => s.matrix = m ∧ l.matrix.Same s.residues.matrix := by
  obtain ⟨converted, stored, rows, same⟩ :=
    inEncoding_shaped wf' wf.supported primes widths stored
  refine follows_of_loop listens sampled ?_ ?_
  · intro stop
    obtain ⟨left, residues, answer, call, -⟩ := RowMatrix.preimages_ok wf rows fits square stop
    exact ⟨_, _, preimages_of_converted widths stored call, rfl⟩
  · intro row stop
    obtain ⟨left, residues, subtracted, call, visited, reduces⟩ :=
      RowMatrix.preimages_interrupted wf rows fits square stop
    refine ⟨_, preimages_of_converted widths stored call, rfl, ?_⟩
    rintro rfl
    rw [visited.eq_of_zero wf, reduces.eq_of_zero rows]
    exact ⟨rfl, same⟩

theorem EncodedBasis.preimages_follows {b : EncodedBasis} (valid : b.Valid)
    (wf : l.matrix.WellFormed) (primes : l.prime = b.prime) (widths : b.columns = l.columns)
    (listens : pacer.listener = some listener) (sampled : pacer.mask = (1 <<< shift) - 1)
    (stored : Fits b.encoding l.rows l.columns)
    (fits : Fits b.encoding l.rows b.basis.sourceRows) :
    Follows (b.preimages l pacer) (fun s => s.2) pacer (schedule shift b.rank)
      fun s => l.matrix.Same s.1.matrix := by
  have shaped : b.basis.Shaped b.prime b.rank b.columns b.basis.sourceRows := valid
  obtain ⟨converted, stored, rows, same⟩ :=
    EncodedMatrix.inEncoding_shaped wf shaped.image.supported primes widths stored
  refine follows_of_loop listens sampled ?_ ?_
  · intro stop
    obtain ⟨s, call, -⟩ := PivotBasis.preimages_ok shaped rows fits stop
    exact ⟨_, _, preimages_of_converted widths stored call, rfl⟩
  · intro row stop
    obtain ⟨s, call, replays⟩ := PivotBasis.preimages_interrupted shaped rows fits stop
    refine ⟨_, preimages_of_converted widths stored call, rfl, ?_⟩
    rintro rfl
    rw [replays.eq_of_zero rows]
    exact same

theorem EncodedMatrix.quotientBasis_follows (wf : m.matrix.WellFormed)
    (wf' : l.matrix.WellFormed) (primes : l.prime = m.prime) (widths : m.columns = l.columns)
    (listens : pacer.listener = some listener) (sampled : pacer.mask = (1 <<< shift) - 1)
    (stored : Fits m.encoding l.rows l.columns) :
    Follows (m.quotientBasis l pacer) (fun s => s.2) pacer
      (schedule shift l.rows ++ .endOfPass :: schedule shift m.rows) fun s => s.1 = m := by
  obtain ⟨converted, stored, image, -⟩ :=
    inEncoding_shaped wf' wf.supported primes widths stored
  refine follows_of_loops listens sampled ?_ ?_ ?_
  · intro first second
    obtain ⟨reduced, left, call, -⟩ := RowMatrix.quotientBasis_ok wf image first second
    exact ⟨_, (), quotientBasis_of_converted stored call, rfl⟩
  · intro row stop
    obtain ⟨left, call, reduced⟩ := RowMatrix.quotientBasis_stopped_first wf image stop
    refine ⟨_, quotientBasis_of_converted stored call, rfl, ?_⟩
    rintro rfl
    rw [reduced.eq_of_zero wf]
  · intro first row stop
    obtain ⟨reduced, left, call, result, visited⟩ :=
      RowMatrix.quotientBasis_stopped_second wf image first stop
    refine ⟨_, quotientBasis_of_converted stored call, rfl, ?_⟩
    rintro none_before rfl
    rw [none_before] at result
    rw [visited.eq_of_zero result.shaped.wellFormed, result.eq_of_zero wf]

/-- A reduction with a listener reports row 0 and every later row below its total whose number is a
multiple of `2 ^ shift`, in order. The total is the number of rows of the matrix that is eliminated,
or of the pivots of a basis; a quotient goes through the rows of the image, reports the end of that
pass once, and goes through its own. If the flag is raised before the call or while a report is
delivered, the call goes on up to the next row at which it looks at the flag, and it is interrupted
there, if there is one. A call with the flag raised before changes nothing, if it is interrupted. -/
theorem reports_follow_schedule {b : EncodedBasis} (hm : Reachable m) (hl : Reachable l)
    (hb : Obtained b) (primes : l.prime = m.prime) (basis_prime : l.prime = b.prime)
    (listens : pacer.listener = some listener) (sampled : pacer.mask = (1 <<< shift) - 1) :
    (∀ wanted, (wanted ≠ .nothing → Fits m.encoding m.rows m.rows) →
      Follows (m.split wanted pacer) (fun s => s.2) pacer (schedule shift m.rows)
        fun s => s.1 = m) ∧
    (m.columns = l.columns → Fits m.encoding l.rows l.columns → Fits m.encoding l.rows m.rows →
      Fits m.encoding m.rows m.rows →
      Follows (m.preimages l pacer) (fun s => s.pacer) pacer (schedule shift m.rows)
        fun s => s.matrix = m ∧ l.matrix.Same s.residues.matrix) ∧
    (b.columns = l.columns → Fits b.encoding l.rows l.columns →
      Fits b.encoding l.rows b.basis.sourceRows →
      Follows (b.preimages l pacer) (fun s => s.2) pacer (schedule shift b.rank)
        fun s => l.matrix.Same s.1.matrix) ∧
    (m.columns = l.columns → Fits m.encoding l.rows l.columns →
      Follows (m.quotientBasis l pacer) (fun s => s.2) pacer
        (schedule shift l.rows ++ .endOfPass :: schedule shift m.rows) fun s => s.1 = m) := by
  have wf := hm.wellFormed
  have wf' := hl.wellFormed
  refine ⟨fun wanted fits => EncodedMatrix.split_follows wf listens sampled wanted fits,
    fun widths stored fits square => ?_, fun widths stored fits => ?_, fun widths stored => ?_⟩
  · exact EncodedMatrix.preimages_follows wf wf' primes widths listens sampled stored fits square
  · exact EncodedBasis.preimages_follows hb.valid wf' basis_prime widths listens sampled stored fits
  · exact EncodedMatrix.quotientBasis_follows wf wf' primes widths listens sampled stored

end

/-- The flag is raised while the first report is delivered. A split of three rows has no other one,
and a quotient is interrupted at row 0 of its second loop. -/
theorem reports_follow_schedule_of_sample :
    let a := RowMatrix.tabulate .packed .two 3 2 fun i j => i * j + 1
    let m : EncodedMatrix := ⟨.packed, a⟩
    let l : EncodedMatrix := ⟨.packed, exchange.image⟩
    let b : EncodedBasis := ⟨.packed, exchange⟩
    let listener : Listener := fun number _ => number == 1
    let pacer := ((Pacer.ofShift 2).withFlag ⟨false⟩).withListener listener
    Reachable m ∧ Reachable l ∧ Obtained b ∧ l.prime = m.prime ∧ l.prime = b.prime ∧
      pacer.listener = some listener ∧ pacer.mask = (1 <<< 2) - 1 ∧
      (Fits .packed m.rows m.rows ∧ ∃ outcome, m.split .everything pacer = .ok outcome ∧
        outcome.state.2.reports.toList = [.atRow 0 3] ∧ ∃ d, outcome.answer = .ok d) ∧
      (m.columns = l.columns ∧ Fits .packed l.rows l.columns ∧
        ∃ outcome, m.quotientBasis l pacer = .ok outcome ∧
          outcome.state.2.reports.toList = [.atRow 0 2, .endOfPass] ∧
          outcome.answer = .error .interrupted) := by
  intro a m l b listener pacer
  have ha : a.Shaped .two 3 2 :=
    RowMatrix.tabulate_shaped (by decide) (by decide) (by decide) (by decide) _
  have hl : exchange.image.Shaped .two 2 2 := exchange_shaped.image
  have obtained : Obtained b := .decodeEncoded (EncodedBasis.reads_decode exchange_shaped [])
  have primes : l.prime = m.prime := hl.prime.trans ha.prime.symm
  have widths : m.columns = l.columns := ha.columns.trans hl.columns.symm
  have rows : m.rows = 3 := ha.rows
  have image_rows : l.rows = 2 := hl.rows
  have square : Fits .packed m.rows m.rows := rows ▸ by decide
  have stored : Fits .packed l.rows l.columns :=
    EncodedMatrix.fits_of_encoding (m := l) hl.wellFormed rfl
  have listens : pacer.listener = some listener := rfl
  have sampled : pacer.mask = (1 <<< 2) - 1 := rfl
  obtain ⟨split, -, -, quotient⟩ := reports_follow_schedule ha.wellFormed.reachable
    hl.wellFormed.reachable obtained primes rfl listens sampled
  obtain ⟨outcome, call, reports, answer, -⟩ := split .everything fun _ => square
  obtain ⟨outcome', call', reports', answer', -⟩ := quotient widths stored
  rw [rows] at reports answer
  rw [rows, image_rows] at reports' answer'
  exact ⟨ha.wellFormed.reachable, hl.wellFormed.reachable, obtained, primes, rfl, rfl, rfl,
    ⟨square, outcome, call, reports, answer⟩,
    ⟨widths, stored, outcome', call', reports', answer'⟩⟩

end Calls

end RowReduction
