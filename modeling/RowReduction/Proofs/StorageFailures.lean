import Mathlib
import RowReduction.Proofs.Agreement
import RowReduction.Proofs.Endings
import RowReduction.Proofs.Reachable

/-!
Calls that fail because of their storage: two matrices differ in their shape, or a buffer is refused.
A reduction allocates all that it works with before it changes a row, and what it builds in the end
is no larger, so a failed call leaves its matrices as they were. Only a matrix that is reduced along
with another may have been stored in the other's encoding before memory ran out, with its entries.
-/
namespace RowReduction

variable {e f : Encoding} {p : SmallPrime} {r n : Nat} {pacer : Pacer} {failure : StorageError}

namespace RowMatrix

theorem add_failure {m other left : RowMatrix e} {c : Nat}
    (call : m.add other c = .ok ⟨left, .error failure⟩) : left = m := by
  simp only [add, check_bind_eq_ok] at call
  obtain ⟨_, call⟩ := call
  split at call
  · cases call
    rfl
  · cases call
    rfl
  · split at call
    · cases call
    · obtain ⟨_, _, result⟩ := bind_eq_ok.mp call
      cases result

variable [Storage.Memory]

/-- A new matrix over a prime that can be stored fails only for its size. -/
theorem new_failure (call : (new p r n : Build (RowMatrix e)) = throw failure) :
    ∃ cells bytes, failure = .outOfMemory cells bytes := by
  cases supported : e.canStore p with
  | false =>
    simp only [new, checkNew, supported, require] at call
    cases call
  | true =>
    by_cases fits : Fits e r n
    · rw [new_of_fits supported fits] at call
      cases call
    · obtain ⟨cells, bytes, refused⟩ := new_of_not_fits supported fits
      rw [refused] at call
      cases call
      exact ⟨cells, bytes, rfl⟩

theorem resize_failure {m left : RowMatrix e} {rows : Nat}
    (call : m.resize rows = ⟨left, .error failure⟩) : left = m := by
  unfold resize at call
  split at call
  · cases call
  · cases call
    rfl

/-- A matrix that is cut to some of its rows needs no new buffer. -/
theorem keepRows_answer {m : RowMatrix e} (wf : m.WellFormed) {keep : List Nat}
    {outcome : Outcome (RowMatrix e) StorageError Unit} (call : m.keepRows keep = .ok outcome) :
    outcome.answer = .ok () := by
  simp only [keepRows, bind_eq_ok] at call
  obtain ⟨moved, run, result⟩ := call
  obtain ⟨shaped, fewer⟩ := wf.shaped.of_moveRows (Nat.zero_le m.rows) run
  rw [Nat.zero_add] at fewer
  obtain ⟨kept, cut, -⟩ := shaped.resize_ok fewer
  cases result
  rw [cut]

end RowMatrix

/-- The reduction by the pivots of a basis allocates nothing. -/
theorem Reduction.replay_error {b : PivotBasis (RowMatrix e)} {pivots : List Pivot} {k : Nat}
    {s : Reduction e} {state : Reduction e × Pacer} {stopped : ReductionError}
    (call : replay b k s pacer pivots = .ok ⟨state, .error stopped⟩) : stopped = .interrupted := by
  induction pivots generalizing k s pacer with
  | nil => cases call
  | cons pivot rest ih =>
    rw [replay] at call
    rcases Pacer.checkpoint_cases pacer k b.rank with ⟨_, passed, -⟩ | ⟨here, -⟩
    · simp only [passed, bind_eq_ok] at call
      obtain ⟨_, _, later⟩ := call
      exact ih later
    · simp only [here] at call
      cases call
      rfl

theorem PivotBasis.preimages_failure [Storage.Memory] {b : PivotBasis (RowMatrix e)}
    {l : RowMatrix e} {state : RowMatrix e × Pacer} (widths : b.columns = l.columns)
    (call : b.preimages l pacer = .ok ⟨state, .error (.storage failure)⟩) :
    state = (l, pacer) ∧ ∃ cells bytes, failure = .outOfMemory cells bytes := by
  simp only [preimages, check_bind_eq_ok] at call
  obtain ⟨prepared, ready, call⟩ := bind_eq_ok.mp call.2
  rw [checkWidths_eq_ok.mpr widths] at ready
  cases prepared with
  | error reason =>
    cases call
    exact ⟨rfl, RowMatrix.new_failure ready⟩
  | ok subtracted =>
    obtain ⟨⟨⟨s, after⟩, replayed⟩, run, result⟩ := bind_eq_ok.mp call
    cases replayed with
    | error stopped =>
      cases result
      cases Reduction.replay_error run
    | ok => cases result

theorem columns_eq_of_check {left right : Nat} {u : Unit}
    (alike : (liftM (checkWidths left right) : Build Unit) = pure u) : left = right := by
  cases widths : checkWidths left right with
  | error reason =>
    rw [widths] at alike
    cases alike
  | ok => exact checkWidths_eq_ok.mp widths

/-- What a failed call leaves of a matrix that it may store anew: the same entries, and the matrix
itself unless memory ran out. -/
structure Intact [Storage.Memory] (failure : StorageError) (l left : EncodedMatrix) : Prop where
  same : l.matrix.Same left.matrix
  unchanged : (∀ cells bytes, failure ≠ .outOfMemory cells bytes) → left = l

theorem Intact.refl [Storage.Memory] {l : EncodedMatrix} (wf : l.matrix.WellFormed) :
    Intact failure l l :=
  ⟨wf.same, fun _ => rfl⟩

namespace EncodedMatrix

variable [Storage.Memory] {m l other image left : EncodedMatrix}

theorem intact_of_inEncoding (wf : l.matrix.WellFormed) {converted : RowMatrix f}
    (call : l.inEncoding f = pure converted)
    (reason : ∃ cells bytes, failure = .outOfMemory cells bytes) :
    Intact failure l ⟨f, converted⟩ := by
  refine ⟨same_of_inEncoding wf call, ?_⟩
  intro other
  obtain ⟨cells, bytes, same⟩ := reason
  exact absurd same (other cells bytes)

theorem split_failure (wf : m.matrix.WellFormed) {wanted : Wanted} {state : EncodedMatrix × Pacer}
    (call : m.split wanted pacer = .ok ⟨state, .error (.storage failure)⟩) : state = (m, pacer) := by
  simp only [split, bind_eq_ok] at call
  obtain ⟨⟨left, answer⟩, run, result⟩ := call
  cases answer with
  | ok => cases result
  | error stopped =>
    cases result
    cases RowMatrix.split_end wf run with
    | refused => rfl

theorem preimages_failure (wf : m.matrix.WellFormed) (wf' : l.matrix.WellFormed)
    {state : EncodedPreimageState}
    (call : m.preimages l pacer = .ok ⟨state, .error (.storage failure)⟩) :
    state.matrix = m ∧ state.pacer = pacer ∧ Intact failure l state.residues := by
  simp only [preimages, bind_eq_ok] at call
  obtain ⟨prepared, ready, call⟩ := call
  cases prepared with
  | error reason =>
    cases call
    exact ⟨rfl, rfl, .refl wf'⟩
  | ok converted =>
    obtain ⟨⟨left, answer⟩, run, result⟩ := bind_eq_ok.mp call
    cases answer with
    | ok => cases result
    | error stopped =>
      cases result
      obtain ⟨_, alike, stored⟩ := bind_eq_pure.mp ready
      have same := same_of_inEncoding wf' stored
      have widths : m.matrix.columns = converted.columns :=
        (columns_eq_of_check alike).trans same.columns.symm
      cases RowMatrix.preimages_end wf same.wellFormed' run with
      | unequal apart => exact absurd widths apart
      | refused => exact ⟨rfl, rfl, intact_of_inEncoding wf' stored ⟨_, _, rfl⟩⟩

theorem quotientBasis_failure (wf : m.matrix.WellFormed) (wf' : image.matrix.WellFormed)
    {state : EncodedMatrix × Pacer}
    (call : m.quotientBasis image pacer = .ok ⟨state, .error (.storage failure)⟩) :
    state = (m, pacer) := by
  simp only [quotientBasis, bind_eq_ok] at call
  obtain ⟨prepared, ready, call⟩ := call
  cases prepared with
  | error reason =>
    cases call
    rfl
  | ok converted =>
    obtain ⟨⟨left, answer⟩, run, result⟩ := bind_eq_ok.mp call
    cases result
    cases RowMatrix.quotientBasis_end wf (wellFormed_of_inEncoding wf' ready) run with
    | unequal => rfl

theorem recodeInPlace_failure (call : m.recodeInPlace f = .ok ⟨left, .error failure⟩) :
    left = m := by
  simp only [recodeInPlace, bind_eq_ok] at call
  obtain ⟨converted, _, result⟩ := call
  cases converted with
  | error reason =>
    cases result
    rfl
  | ok => cases result

theorem add_failure {c : Nat} (call : m.add other c = .ok ⟨left, .error failure⟩) : left = m := by
  obtain ⟨encoding, matrix⟩ := m
  obtain ⟨encoding', matrix'⟩ := other
  simp only [add, check_bind_eq_ok] at call
  obtain ⟨_, call⟩ := call
  split at call
  · cases call
    rfl
  · cases call
    rfl
  · split at call
    · rename_i same
      subst same
      obtain ⟨⟨sum, answer⟩, run, result⟩ := bind_eq_ok.mp call
      cases result
      rw [RowMatrix.add_failure run]
    · split at call
      · cases call
      · obtain ⟨converted, _, result⟩ := bind_eq_ok.mp call
        cases converted with
        | error reason =>
          cases result
          rfl
        | ok generic =>
          obtain ⟨_, _, result⟩ := bind_eq_ok.mp result
          cases result

end EncodedMatrix

theorem EncodedBasis.preimages_failure [Storage.Memory] {b : EncodedBasis} {l : EncodedMatrix}
    (wf : l.matrix.WellFormed) {state : EncodedMatrix × Pacer}
    (call : b.preimages l pacer = .ok ⟨state, .error (.storage failure)⟩) :
    Intact failure l state.1 ∧ state.2 = pacer := by
  simp only [preimages, bind_eq_ok] at call
  obtain ⟨prepared, ready, call⟩ := call
  cases prepared with
  | error reason =>
    cases call
    exact ⟨.refl wf, rfl⟩
  | ok converted =>
    obtain ⟨⟨left, answer⟩, run, result⟩ := bind_eq_ok.mp call
    cases answer with
    | ok => cases result
    | error stopped =>
      cases result
      obtain ⟨_, alike, stored⟩ := bind_eq_pure.mp ready
      have same := EncodedMatrix.same_of_inEncoding wf stored
      have widths : b.basis.columns = converted.columns :=
        (columns_eq_of_check alike).trans same.columns.symm
      obtain ⟨rfl, reason⟩ := PivotBasis.preimages_failure widths run
      exact ⟨EncodedMatrix.intact_of_inEncoding wf stored reason, rfl⟩

/-- A call that fails because of its storage leaves every matrix that it was given with the same
shape and entries. Each stays in its encoding too, except for one that is reduced along with another
or by a basis when memory runs out, and a matrix that is cut to some of its rows never fails. -/
theorem storage_failures_keep [Storage.Memory] {m l image : EncodedMatrix} (hm : Reachable m)
    (hl : Reachable l) (hi : Reachable image) :
    (∀ wanted pacer state failure,
      m.split wanted pacer = .ok ⟨state, .error (.storage failure)⟩ → state = (m, pacer)) ∧
    (∀ pacer state failure, m.preimages l pacer = .ok ⟨state, .error (.storage failure)⟩ →
      state.matrix = m ∧ state.pacer = pacer ∧ Intact failure l state.residues) ∧
    (∀ (b : EncodedBasis) pacer state failure,
      b.preimages l pacer = .ok ⟨state, .error (.storage failure)⟩ →
        Intact failure l state.1 ∧ state.2 = pacer) ∧
    (∀ pacer state failure, m.quotientBasis image pacer = .ok ⟨state, .error (.storage failure)⟩ →
      state = (m, pacer)) ∧
    (∀ other c left failure, m.add other c = .ok ⟨left, .error failure⟩ → left = m) ∧
    (∀ f left failure, m.recodeInPlace f = .ok ⟨left, .error failure⟩ → left = m) ∧
    (∀ rows left failure, m.matrix.resize rows = ⟨left, .error failure⟩ → left = m.matrix) ∧
    ∀ keep outcome, m.matrix.keepRows keep = .ok outcome → outcome.answer = .ok () :=
  ⟨fun _ _ _ _ => EncodedMatrix.split_failure hm.wellFormed,
    fun _ _ _ => EncodedMatrix.preimages_failure hm.wellFormed hl.wellFormed,
    fun _ _ _ _ => EncodedBasis.preimages_failure hl.wellFormed,
    fun _ _ _ => EncodedMatrix.quotientBasis_failure hm.wellFormed hi.wellFormed,
    fun _ _ _ _ => EncodedMatrix.add_failure, fun _ _ _ => EncodedMatrix.recodeInPlace_failure,
    fun _ _ _ => RowMatrix.resize_failure,
    fun _ _ => RowMatrix.keepRows_answer hm.wellFormed⟩

/-- A square of so many rows does not fit. The rows that were to be reduced are stored anew by then. -/
theorem storage_failures_keep_of_sample :
    let m : EncodedMatrix := ⟨.generic, .blank .generic .two 16777216 0⟩
    let l : EncodedMatrix := ⟨.packed, .blank .packed .two 2 0⟩
    Reachable m ∧ Reachable l ∧
    (∃ state failure, m.split .everything .standard = .ok ⟨state, .error (.storage failure)⟩ ∧
      state = (m, .standard)) ∧
    ∃ state failure, m.preimages l .standard = .ok ⟨state, .error (.storage failure)⟩ ∧
      state.matrix = m ∧ Intact failure l state.residues ∧ state.residues.encoding = .generic := by
  intro m l
  have blank (e : Encoding) (r : Nat) (supported : e.canStore .two = true)
      (rows_le : r ≤ Storage.maxSize) (fits : Fits e r 0) :
      Reachable ⟨e, .blank e .two r 0⟩ := by
    have built : EncodedMatrix.new e .two r 0 = pure ⟨e, .blank e .two r 0⟩ := by
      rw [EncodedMatrix.new, RowMatrix.new_of_fits supported fits]
      rfl
    exact .step (List.forall_mem_nil _) (.new rows_le (by decide) built)
  have hm : Reachable m := blank .generic 16777216 (by decide) (by decide) (by decide)
  have hl : Reachable l := blank .packed 2 (by decide) (by decide) (by decide)
  obtain ⟨splits, lifts, -⟩ := storage_failures_keep hm hl hl
  have large : ¬ Fits .generic m.rows m.rows := by decide
  refine ⟨hm, hl, ?split, ?preimages⟩
  case split =>
    have something : Wanted.everything ≠ .nothing := by decide
    obtain ⟨cells, bytes, refused⟩ :=
      RowMatrix.split_refused hm.wellFormed something large .standard
    have call : m.split .everything .standard =
        .ok ⟨(m, .standard), .error (.storage (.outOfMemory cells bytes))⟩ := by
      rw [EncodedMatrix.split, refused]
      rfl
    exact ⟨_, _, call, splits _ _ _ _ call⟩
  case preimages =>
    have rows : l.matrix.Shaped .two 2 0 :=
      RowMatrix.blank_shaped (by decide) (by decide) (by decide) (by decide)
    obtain ⟨copy, stored, shaped, -⟩ := rows.recode_ok (f := .generic) (by decide) (by decide)
    obtain ⟨cells, bytes, refused⟩ :=
      RowMatrix.preimages_refused hm.wellFormed shaped (fun fits => large fits.2) .standard
    have widths : checkWidths m.columns l.columns = .ok () := rfl
    have converted : l.inEncoding m.encoding = pure copy := stored
    have call : m.preimages l .standard =
        .ok ⟨⟨m, ⟨.generic, copy⟩, .standard⟩,
          .error (.storage (.outOfMemory cells bytes))⟩ := by
      rw [EncodedMatrix.preimages, widths, converted]
      exact bind_eq_ok.mpr ⟨.ok copy, rfl, bind_eq_ok.mpr ⟨_, refused, rfl⟩⟩
    obtain ⟨matrix, -, intact⟩ := lifts _ _ _ call
    exact ⟨_, _, call, matrix, intact, rfl⟩

end RowReduction
