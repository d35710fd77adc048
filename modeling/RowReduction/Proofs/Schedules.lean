import Mathlib
import RowReduction.Proofs.Walk

/-!
The reports of a loop, apart from what it works on. Uninterrupted, it delivers a schedule that only
depends on its number of rows and on how often it reports. Once the flag is raised, it still
delivers the reports up to the next one before which the flag is looked at, and it is interrupted
exactly if there is one.
-/
namespace RowReduction

/-- Whether the flag is looked at before the report is delivered. -/
def Report.polls : Report → Bool
  | .atRow _ _ => true
  | .endOfPass => false

/-- A report for each of the next `remaining` rows from row `i` on that is a multiple of
`2 ^ shift`. -/
def scheduleFrom (shift total remaining i : Nat) : List Report :=
  ((List.range' i remaining).filter fun row => row % 2 ^ shift == 0).map fun row =>
    .atRow row total

/-- A report for each row below `total` that is a multiple of `2 ^ shift`. -/
def schedule (shift total : Nat) : List Report :=
  ((List.range total).filter fun row => row % 2 ^ shift == 0).map fun row => .atRow row total

/-- What is delivered of a schedule if the flag is raised after `n` reports, or never. -/
def deliveredOf (scheduled : List Report) : Option Nat → List Report
  | none => scheduled
  | some n => scheduled.take n ++ (scheduled.drop n).takeWhile fun report => !report.polls

/-- Whether the flag is looked at once it was raised after `n` reports, or never. -/
def stopsIn (scheduled : List Report) : Option Nat → Bool
  | none => false
  | some n => (scheduled.drop n).any Report.polls

theorem schedule_eq (shift total : Nat) :
    schedule shift total = scheduleFrom shift total total 0 := by
  rw [schedule, scheduleFrom, List.range_eq_range']

theorem scheduleFrom_succ (shift total remaining i : Nat) :
    scheduleFrom shift total (remaining + 1) i = if i % 2 ^ shift = 0
      then .atRow i total :: scheduleFrom shift total remaining (i + 1)
      else scheduleFrom shift total remaining (i + 1) := by
  simp only [scheduleFrom, List.range'_succ, List.filter_cons, beq_iff_eq]
  split <;> rfl

section Cons

variable (report : Report) (rest : List Report) (raised : Option Nat)

theorem deliveredOf_cons : deliveredOf (report :: rest) (raised.map (· + 1)) =
    report :: deliveredOf rest raised := by
  cases raised <;> rfl

theorem stopsIn_cons : stopsIn (report :: rest) (raised.map (· + 1)) = stopsIn rest raised := by
  cases raised <;> rfl

end Cons

namespace Pacer

variable {s : Pacer} {listener : Listener}

/-- How many reports of a schedule are delivered until the flag is raised: none if it is from the
start, and otherwise those up to the first one that lets the listener raise it. -/
def raisedAfter (s : Pacer) (scheduled : List Report) : Option Nat :=
  if s.mustStop then some 0
  else match s.flag, s.listener with
    | some _, some listener =>
      ((scheduled.zipIdx (s.reports.size + 1)).findIdx? fun (report, number) =>
        listener number report).map (· + 1)
    | _, _ => none

/-- Delivers one report after the other, up to one before which the raised flag is looked at. -/
def play (s : Pacer) : List Report → Pacer × Bool
  | [] => (s, false)
  | report :: rest =>
    if report.polls && s.mustStop then (s, true) else (s.deliver report).play rest

theorem deliver_eq (listens : s.listener = some listener) (report : Report) :
    s.deliver report = { s with
      reports := s.reports.push report
      flag := s.flag.map fun flag => ⟨flag.raised || listener (s.reports.size + 1) report⟩ } := by
  obtain ⟨mask, told, flag, reports⟩ := s
  cases listens
  rw [deliver]
  dsimp only
  rw [Array.size_push]
  cases raises : listener (reports.size + 1) report <;> cases flag <;>
    simp [mapFlag, StopFlag.raise]

theorem deliver_mask (report : Report) : (s.deliver report).mask = s.mask := by
  cases listens : s.listener with
  | none => rw [deliver, listens]
  | some listener => rw [deliver_eq listens]

theorem mustStop_deliver (listens : s.listener = some listener) (report : Report) :
    (s.deliver report).mustStop =
      s.flag.any fun flag => flag.raised || listener (s.reports.size + 1) report := by
  rw [deliver_eq listens, mustStop, Option.any_map]

/-- No delivery lowers the flag. -/
theorem mustStop_deliver_of_mustStop (listens : s.listener = some listener)
    (raised : s.mustStop = true) (report : Report) : (s.deliver report).mustStop = true := by
  rw [mustStop_deliver listens]
  simp only [mustStop, Option.any_eq_true] at raised ⊢
  obtain ⟨flag, present, up⟩ := raised
  exact ⟨flag, present, by rw [up, Bool.true_or]⟩

theorem raisedAfter_of_mustStop (raised : s.mustStop = true) (scheduled : List Report) :
    s.raisedAfter scheduled = some 0 := if_pos raised

/-- Until the flag is raised, delivering a report leaves one less to deliver. -/
theorem raisedAfter_cons (listens : s.listener = some listener) (lowered : s.mustStop = false)
    (report : Report) (rest : List Report) :
    s.raisedAfter (report :: rest) = ((s.deliver report).raisedAfter rest).map (· + 1) := by
  have next := mustStop_deliver listens report
  have still : (s.deliver report).listener = some listener := by rw [deliver_eq listens, listens]
  have count : (s.deliver report).reports.size = s.reports.size + 1 := by
    rw [deliver_eq listens, Array.size_push]
  cases present : s.flag with
  | none =>
    have absent : (s.deliver report).flag = none := by rw [deliver_eq listens, present]; rfl
    rw [present] at next
    rw [raisedAfter, lowered, raisedAfter, next, present, absent]
    rfl
  | some flag =>
    have down : flag.raised = false := by simpa [mustStop, present] using lowered
    obtain ⟨later, there⟩ : ∃ later, (s.deliver report).flag = some later := by
      rw [deliver_eq listens, present]
      exact ⟨_, rfl⟩
    simp only [present, Option.any_some, down, Bool.false_or] at next
    simp only [raisedAfter, lowered, next, present, there, listens, still, count,
      List.zipIdx_cons, List.findIdx?_cons]
    cases listener (s.reports.size + 1) report <;> simp

theorem play_of_polls {report : Report} (raised : s.mustStop = true) (polls : report.polls = true)
    (rest : List Report) : s.play (report :: rest) = (s, true) := by
  rw [play, polls, raised]
  rfl

theorem play_cons {report : Report} (passed : (report.polls && s.mustStop) = false)
    (rest : List Report) : s.play (report :: rest) = (s.deliver report).play rest := by
  rw [play, passed]
  rfl

/-- What is delivered of a schedule, and whether it is interrupted. -/
theorem play_eq (listens : s.listener = some listener) (scheduled : List Report) :
    (s.play scheduled).1.reports.toList =
        s.reports.toList ++ deliveredOf scheduled (s.raisedAfter scheduled) ∧
      (s.play scheduled).2 = stopsIn scheduled (s.raisedAfter scheduled) := by
  induction scheduled generalizing s with
  | nil =>
    have nothing (raised : Option Nat) :
        deliveredOf [] raised = [] ∧ stopsIn [] raised = false := by
      cases raised <;> exact ⟨by simp [deliveredOf], by simp [stopsIn]⟩
    obtain ⟨delivered, stops⟩ := nothing (s.raisedAfter [])
    rw [delivered, stops, List.append_nil]
    exact ⟨rfl, rfl⟩
  | cons report rest ih =>
    have still : (s.deliver report).listener = some listener := by rw [deliver_eq listens, listens]
    have pushed : (s.deliver report).reports.toList = s.reports.toList ++ [report] := by
      rw [deliver_eq listens, Array.toList_push]
    obtain ⟨delivered, stops⟩ := ih still
    rw [pushed, List.append_assoc, List.singleton_append] at delivered
    cases raised : s.mustStop with
    | false =>
      rw [play_cons (by rw [raised, Bool.and_false]), raisedAfter_cons listens raised,
        deliveredOf_cons, stopsIn_cons]
      exact ⟨delivered, stops⟩
    | true =>
      rw [raisedAfter_of_mustStop raised]
      cases polls : report.polls with
      | true =>
        rw [play_of_polls raised polls]
        simp [deliveredOf, stopsIn, polls]
      | false =>
        have next := mustStop_deliver_of_mustStop listens raised report
        rw [raisedAfter_of_mustStop next] at delivered stops
        rw [play_cons (by rw [polls, Bool.false_and]), delivered, stops]
        simp [deliveredOf, stopsIn, polls]

theorem play_mask (scheduled : List Report) : (s.play scheduled).1.mask = s.mask := by
  induction scheduled generalizing s with
  | nil => rfl
  | cons report rest ih =>
    rw [play]
    split
    · rfl
    · exact ih.trans (deliver_mask report)

theorem play_append (first second : List Report) : s.play (first ++ second) =
    if (s.play first).2 then s.play first else (s.play first).1.play second := by
  induction first generalizing s with
  | nil => rfl
  | cons report rest ih =>
    rw [List.cons_append, play, play]
    split
    · rfl
    · exact ih

theorem samples_eq {shift : Nat} (sampled : s.mask = (1 <<< shift) - 1) (row : Nat) :
    s.samples row = (row % 2 ^ shift == 0) := by
  rw [samples, sampled, Nat.one_shiftLeft, Nat.and_two_pow_sub_one_eq_mod]

/-- A loop plays the schedule of its rows. -/
theorem walk_eq_play {shift : Nat} (sampled : s.mask = (1 <<< shift) - 1)
    (total remaining i : Nat) :
    (s.walk total remaining i).1 = (s.play (scheduleFrom shift total remaining i)).1 ∧
      (s.walk total remaining i).2.isSome =
        (s.play (scheduleFrom shift total remaining i)).2 := by
  induction remaining generalizing s i with
  | zero => exact ⟨rfl, rfl⟩
  | succ remaining ih =>
    have here := samples_eq sampled i
    rw [walk, checkpoint, scheduleFrom_succ]
    by_cases reports : i % 2 ^ shift = 0
    · rw [reports, beq_self_eq_true] at here
      rw [if_pos reports, here, if_neg Bool.true_eq_false_eq_False]
      cases raised : s.mustStop with
      | true =>
        rw [play_of_polls raised rfl]
        exact ⟨rfl, rfl⟩
      | false =>
        rw [play_cons (by rw [raised, Bool.and_false])]
        exact ih ((deliver_mask _).trans sampled) (i + 1)
    · have silent : s.samples i = false := by
        rw [here]
        exact beq_false_of_ne reports
      rw [if_neg reports, if_pos silent]
      exact ih sampled (i + 1)

theorem afterRows_eq_play {shift : Nat} (sampled : s.mask = (1 <<< shift) - 1) (total : Nat) :
    s.afterRows total = (s.play (schedule shift total)).1 := by
  rw [schedule_eq]
  exact (walk_eq_play sampled total total 0).1

theorem stopRow_isSome {shift : Nat} (sampled : s.mask = (1 <<< shift) - 1) (total : Nat) :
    (s.stopRow total).isSome = (s.play (schedule shift total)).2 := by
  rw [schedule_eq]
  exact (walk_eq_play sampled total total 0).2

/-- Row 0 is always looked at, so a loop that finds the flag raised stops there. -/
theorem stopRow_of_mustStop (raised : s.mustStop = true) (total : Nat) :
    s.stopRow total = if total = 0 then none else some 0 := by
  cases total with
  | zero => rfl
  | succ total =>
    have sampled : s.samples 0 = true := by simp [samples]
    rw [stopRow, walk, checkpoint, sampled, raised]
    rfl

theorem row_eq_zero_of_mustStop (raised : s.mustStop = true) {total row : Nat}
    (stopped : s.stopRow total = some row) : row = 0 := by
  rw [stopRow_of_mustStop raised] at stopped
  split at stopped
  · cases stopped
  · exact (Option.some.inj stopped).symm

theorem total_eq_zero_of_mustStop (raised : s.mustStop = true) {total : Nat}
    (uninterrupted : s.stopRow total = none) : total = 0 := by
  rw [stopRow_of_mustStop raised] at uninterrupted
  split at uninterrupted
  · assumption
  · cases uninterrupted

end Pacer

end RowReduction
