import Mathlib
import RowReduction.EncodedBasis
import RowReduction.Proofs.Agreement
import RowReduction.Proofs.Endings

/-!
What the reductions leave and answer. Whether a call was complete, interrupted or refused storage,
every matrix that its caller has afterwards is well-formed, if those that it was given are. The
pivots of a basis need not fit its rows for that.
-/
namespace RowReduction

/-- The matrices that a call leaves, and those of its answer if it has one. -/
def Outcome.matrices {σ ε α M : Type} (left : σ → List M) (answers : α → List M)
    (outcome : Outcome σ ε α) : List M :=
  left outcome.state ++ match outcome.answer with
    | .ok answer => answers answer
    | .error _ => []

@[simp]
theorem Outcome.matrices_ok {σ ε α M : Type} (left : σ → List M) (answers : α → List M) (state : σ)
    (answer : α) : (⟨state, .ok answer⟩ : Outcome σ ε α).matrices left answers =
      left state ++ answers answer := rfl

@[simp]
theorem Outcome.matrices_error {σ ε α M : Type} (left : σ → List M) (answers : α → List M)
    (state : σ) (failure : ε) :
    (⟨state, .error failure⟩ : Outcome σ ε α).matrices left answers = left state :=
  List.append_nil _

def PivotBasis.matrices {M : Type} (b : PivotBasis M) : List M := [b.image, b.combinations]

def Splitting.matrices {M : Type} (d : Splitting M) : List M :=
  d.kernel.toList ++ d.dual.toList ++ d.basis.toList.flatMap PivotBasis.matrices

def EncodedBasis.matrices (b : EncodedBasis) : List EncodedMatrix :=
  b.basis.matrices.map fun m => ⟨b.encoding, m⟩

def EncodedSplitting.matrices (d : EncodedSplitting) : List EncodedMatrix :=
  d.kernel.toList ++ d.dual.toList ++ d.basis.toList.flatMap EncodedBasis.matrices

section Reductions

variable [Storage.Memory] {e : Encoding} {p : SmallPrime} {m l image : RowMatrix e} {pacer : Pacer}

namespace RowMatrix

theorem SplitsInto.wellFormed {wanted : Wanted} {left : RowMatrix e} {d : Splitting (RowMatrix e)}
    (splits : m.SplitsInto wanted left d) : ∀ x ∈ d.matrices, x.WellFormed := by
  intro x member
  simp only [Splitting.matrices, List.mem_append, List.mem_flatMap, Option.mem_toList] at member
  obtain (kernel | dual) | ⟨b, basis, member⟩ := member
  · exact (splits.kernel x kernel).shaped.wellFormed
  · exact (splits.dual x dual).shaped.wellFormed
  · have holds := splits.basis b basis
    simp only [PivotBasis.matrices, List.mem_cons, List.not_mem_nil, or_false] at member
    obtain rfl | rfl := member
    · rw [holds.image]
      exact splits.image.shaped.wellFormed
    · exact holds.shaped.wellFormed

theorem split_wellFormed (wf : m.WellFormed) {wanted : Wanted}
    {outcome : Outcome (RowMatrix e × Pacer) ReductionError (Splitting (RowMatrix e))}
    (call : m.split wanted pacer = .ok outcome) :
    ∀ x ∈ outcome.matrices (fun s => [s.1]) Splitting.matrices, x.WellFormed := by
  cases split_end wf call with
  | refused => simpa using wf
  | interrupted inside visited => simpa using visited.shaped.wellFormed
  | complete splits => simpa using ⟨splits.image.shaped.wellFormed, splits.wellFormed⟩

theorem preimages_wellFormed (wf : m.WellFormed) (wf' : l.WellFormed)
    {outcome : Outcome (PreimageState e) ReductionError (RowMatrix e)}
    (call : m.preimages l pacer = .ok outcome) :
    ∀ x ∈ outcome.matrices (fun s => [s.matrix, s.residues]) (fun answer => [answer]),
      x.WellFormed := by
  cases preimages_end wf wf' call with
  | unequal widths => simpa using ⟨wf, wf'⟩
  | refused => simpa using ⟨wf, wf'⟩
  | interrupted inside visited reduces =>
    simpa using ⟨visited.shaped.wellFormed, reduces.residues_shaped.wellFormed⟩
  | complete holds reduces =>
    simpa using ⟨holds.shaped.wellFormed, reduces.residues_shaped.wellFormed,
      reduces.answer_shaped.wellFormed⟩

theorem quotientBasis_wellFormed (wf : m.WellFormed) (wf' : image.WellFormed)
    {outcome : Outcome (RowMatrix e × Pacer) ReductionError Unit}
    (call : m.quotientBasis image pacer = .ok outcome) : outcome.state.1.WellFormed := by
  cases quotientBasis_end wf wf' call with
  | unequal widths => exact wf
  | stoppedFirst inside reduced => exact reduced.shaped.wellFormed
  | stoppedSecond inside result visited => exact visited.shaped.wellFormed
  | complete result holds => exact holds.shaped.wellFormed

end RowMatrix

/-- Rows that are being reduced and what was subtracted from them, both well-formed. -/
structure Reduction.WellFormed (s : Reduction e) : Prop where
  residues : s.residues.WellFormed
  subtracted : s.subtracted.WellFormed

namespace PivotBasis

variable {b : PivotBasis (RowMatrix e)}

/-- One pivot keeps the rows well-formed, whatever it tells of the basis. -/
theorem reduceRows_wellFormed (image : b.image.WellFormed)
    (combinations : b.combinations.WellFormed) {pivot : Pivot} {s s' : Reduction e} (wf : s.WellFormed)
    (call : s.reduceRows b.image b.combinations pivot = .ok s') : s'.WellFormed := by
  refine foldlM_keeps ?_ wf call
  intro s row s' wf step
  simp only [Reduction.reduceRow, bind_eq_ok] at step
  obtain ⟨x, _, step⟩ := step
  split at step
  · cases step
    exact wf
  · simp only [bind_eq_ok] at step
    obtain ⟨residues, added, _, _, subtracted, recorded, result⟩ := step
    cases result
    exact ⟨(wf.residues.shaped.of_addRowOf image added).wellFormed,
      (wf.subtracted.shaped.of_addRowOf combinations recorded).wellFormed⟩

theorem replay_wellFormed (image : b.image.WellFormed) (combinations : b.combinations.WellFormed)
    {pivots : List Pivot} {k : Nat} {s : Reduction e} (wf : s.WellFormed)
    {outcome : Outcome (Reduction e × Pacer) ReductionError Unit}
    (call : Reduction.replay b k s pacer pivots = .ok outcome) : outcome.state.1.WellFormed := by
  induction pivots generalizing k s pacer with
  | nil =>
    cases call
    exact wf
  | cons pivot rest ih =>
    unfold Reduction.replay at call
    generalize pacer.checkpoint k b.rank = passage at call
    obtain ⟨next, passed⟩ := passage
    cases passed with
    | error stopped =>
      cases call
      exact wf
    | ok _ =>
      simp only [bind_eq_ok] at call
      obtain ⟨reduced, step, call⟩ := call
      exact ih (reduceRows_wellFormed image combinations wf step) call

theorem preimages_wellFormed (image : b.image.WellFormed)
    (combinations : b.combinations.WellFormed) (wf : l.WellFormed)
    {outcome : Outcome (RowMatrix e × Pacer) ReductionError (RowMatrix e)}
    (call : b.preimages l pacer = .ok outcome) :
    ∀ x ∈ outcome.matrices (fun s => [s.1]) (fun answer => [answer]), x.WellFormed := by
  simp only [preimages, check_bind_eq_ok] at call
  simp only [bind_eq_ok] at call
  obtain ⟨_, prepared, ready, call⟩ := call
  cases prepared with
  | error failure =>
    cases call
    simpa using wf
  | ok subtracted =>
    simp only [bind_eq_ok] at call
    obtain ⟨replayed, run, result⟩ := call
    have built := bind_eq_pure.mp ready
    obtain ⟨_, _, allocated⟩ := built
    have start := RowMatrix.Shaped.of_new wf.rows_le combinations.columns_le allocated
    have final := replay_wellFormed image combinations ⟨wf, start.wellFormed⟩ run
    obtain ⟨⟨s, after⟩, answer⟩ := replayed
    cases result
    cases answer with
    | error stopped => simpa [Except.map] using final.residues
    | ok _ => simpa [Except.map] using ⟨final.residues, final.subtracted⟩

theorem wellFormed_of_decode {input rest : List UInt8}
    (read : decode p input = pure (b, rest)) : ∀ x ∈ b.matrices, x.WellFormed := by
  simp only [decode, Binary.run_bind_eq_pure] at read
  obtain ⟨image, _, image_read, combinations, _, combinations_read, read⟩ := read
  have kept : b.image = image ∧ b.combinations = combinations := by
    split at read
    · rw [Binary.run_bind_eq_pure] at read
      obtain ⟨_, _, stopped, _⟩ := read
      cases stopped
    · simp only [Binary.run_bind_eq_pure] at read
      obtain ⟨_, _, _, pivots, _, _, result⟩ := read
      cases result
      exact ⟨rfl, rfl⟩
  simp only [matrices, kept, List.mem_cons, List.not_mem_nil, or_false, forall_eq_or_imp, forall_eq]
  exact ⟨RowMatrix.wellFormed_of_decode image_read,
    RowMatrix.wellFormed_of_decode combinations_read⟩

end PivotBasis

end Reductions

/-! Matrices that carry their encoding. -/

namespace EncodedMatrix

variable [Storage.Memory] {e f : Encoding} {p : SmallPrime} {m l other image x : EncodedMatrix}
  {pacer : Pacer}

theorem wellFormed_of_inEncoding (wf : m.matrix.WellFormed) {m' : RowMatrix f}
    (converted : m.inEncoding f = pure m') : m'.WellFormed :=
  (same_of_inEncoding wf converted).wellFormed'

theorem recodeInPlace_wellFormed (wf : m.matrix.WellFormed)
    {outcome : Outcome EncodedMatrix StorageError Unit}
    (call : m.recodeInPlace f = .ok outcome) : outcome.state.matrix.WellFormed := by
  simp only [recodeInPlace, bind_eq_ok] at call
  obtain ⟨converted, ready, result⟩ := call
  cases converted with
  | error failure =>
    cases result
    exact wf
  | ok matrix =>
    cases result
    exact wellFormed_of_inEncoding wf ready

theorem addEntries_wellFormed {e f : Encoding} {m sum : RowMatrix e} (wf : m.WellFormed)
    {other : RowMatrix f} {c : Nat} (call : addEntries m other c = .ok sum) : sum.WellFormed := by
  refine foldlM_keeps ?_ wf call
  intro sum k sum' wf step
  by_cases zero : other.read (k / other.columns) (k % other.columns) = 0
  · simp only [zero, if_true] at step
    cases step
    exact wf
  · simp only [zero, if_false] at step
    exact (wf.shaped.of_addEntry step).wellFormed

theorem add_wellFormed (wf : m.matrix.WellFormed) (wf' : other.matrix.WellFormed) {c : Nat}
    {outcome : Outcome EncodedMatrix StorageError Unit} (call : m.add other c = .ok outcome) :
    outcome.state.matrix.WellFormed := by
  obtain ⟨encoding, matrix⟩ := m
  obtain ⟨encoding', matrix'⟩ := other
  simp only [add, check_bind_eq_ok] at call
  obtain ⟨_, call⟩ := call
  split at call
  · cases call
    exact wf
  · cases call
    exact wf
  · split at call
    · rename_i same
      subst same
      rw [bind_eq_ok] at call
      obtain ⟨sum, run, result⟩ := call
      cases result
      exact (wf.shaped.of_add wf' run).wellFormed
    · split at call
      · cases call
        exact wf
      · rw [bind_eq_ok] at call
        obtain ⟨converted, ready, result⟩ := call
        cases converted with
        | error failure =>
          cases result
          exact wf
        | ok generic =>
          simp only [bind_eq_ok] at result
          obtain ⟨sum, run, result⟩ := result
          cases result
          exact addEntries_wellFormed (wellFormed_of_inEncoding wf ready) run

omit [Storage.Memory] in
theorem matrices_encoded {e : Encoding} (d : Splitting (RowMatrix e)) :
    EncodedSplitting.matrices ⟨d.rank, d.kernel.map fun m => ⟨e, m⟩, d.dual.map fun m => ⟨e, m⟩,
      d.basis.map fun b => ⟨e, b⟩⟩ = d.matrices.map fun m => ⟨e, m⟩ := by
  obtain ⟨rank, kernel, dual, basis⟩ := d
  cases kernel <;> cases dual <;> cases basis <;> rfl

theorem split_wellFormed (wf : m.matrix.WellFormed) {wanted : Wanted}
    {outcome : Outcome (EncodedMatrix × Pacer) ReductionError EncodedSplitting}
    (call : m.split wanted pacer = .ok outcome) :
    ∀ x ∈ outcome.matrices (fun s => [s.1]) EncodedSplitting.matrices, x.matrix.WellFormed := by
  simp only [split, bind_eq_ok] at call
  obtain ⟨typed, run, result⟩ := call
  have wf' := RowMatrix.split_wellFormed wf run
  obtain ⟨⟨left, after⟩, answer⟩ := typed
  cases result
  cases answer with
  | error stopped => simpa [Except.map] using wf'
  | ok d =>
    simp only [Except.map, Outcome.matrices_ok, matrices_encoded, List.forall_mem_append,
      List.forall_mem_singleton, List.forall_mem_map] at wf' ⊢
    exact wf'

theorem preimages_wellFormed (wf : m.matrix.WellFormed) (wf' : l.matrix.WellFormed)
    {outcome : Outcome EncodedPreimageState ReductionError EncodedMatrix}
    (call : m.preimages l pacer = .ok outcome) :
    ∀ x ∈ outcome.matrices (fun s => [s.matrix, s.residues]) (fun answer => [answer]),
      x.matrix.WellFormed := by
  simp only [preimages, bind_eq_ok] at call
  obtain ⟨prepared, ready, call⟩ := call
  cases prepared with
  | error failure =>
    cases call
    simpa using ⟨wf, wf'⟩
  | ok converted =>
    simp only [bind_eq_ok] at call
    obtain ⟨typed, run, result⟩ := call
    obtain ⟨_, _, stored⟩ := bind_eq_pure.mp ready
    have final := RowMatrix.preimages_wellFormed wf (wellFormed_of_inEncoding wf' stored) run
    obtain ⟨state, answer⟩ := typed
    cases result
    cases answer with
    | error stopped => simpa [Except.map] using final
    | ok answer => simpa [Except.map] using final

theorem quotientBasis_wellFormed (wf : m.matrix.WellFormed) (wf' : image.matrix.WellFormed)
    {outcome : Outcome (EncodedMatrix × Pacer) ReductionError Unit}
    (call : m.quotientBasis image pacer = .ok outcome) :
    outcome.state.1.matrix.WellFormed := by
  simp only [quotientBasis, bind_eq_ok] at call
  obtain ⟨prepared, ready, call⟩ := call
  cases prepared with
  | error failure =>
    cases call
    exact wf
  | ok converted =>
    simp only [bind_eq_ok] at call
    obtain ⟨typed, run, result⟩ := call
    have final := RowMatrix.quotientBasis_wellFormed wf (wellFormed_of_inEncoding wf' ready) run
    cases result
    exact final

end EncodedMatrix

namespace EncodedBasis

variable [Storage.Memory] {b : EncodedBasis} {l : EncodedMatrix} {pacer : Pacer}

theorem preimages_wellFormed (basis : ∀ x ∈ b.matrices, x.matrix.WellFormed)
    (wf : l.matrix.WellFormed)
    {outcome : Outcome (EncodedMatrix × Pacer) ReductionError EncodedMatrix}
    (call : b.preimages l pacer = .ok outcome) :
    ∀ x ∈ outcome.matrices (fun s => [s.1]) (fun answer => [answer]), x.matrix.WellFormed := by
  simp only [preimages, bind_eq_ok] at call
  obtain ⟨prepared, ready, call⟩ := call
  cases prepared with
  | error failure =>
    cases call
    simpa using wf
  | ok converted =>
    simp only [bind_eq_ok] at call
    obtain ⟨typed, run, result⟩ := call
    obtain ⟨_, _, stored⟩ := bind_eq_pure.mp ready
    have image := basis ⟨b.encoding, b.basis.image⟩ (by simp [matrices, PivotBasis.matrices])
    have combinations :=
      basis ⟨b.encoding, b.basis.combinations⟩ (by simp [matrices, PivotBasis.matrices])
    have final := PivotBasis.preimages_wellFormed image combinations
      (EncodedMatrix.wellFormed_of_inEncoding wf stored) run
    obtain ⟨⟨residues, after⟩, answer⟩ := typed
    cases result
    cases answer with
    | error stopped => simpa [Except.map] using final
    | ok answer => simpa [Except.map] using final

theorem wellFormed_of_decode {input rest : List UInt8} (read : decode input = pure (b, rest)) :
    ∀ x ∈ b.matrices, x.matrix.WellFormed := by
  obtain ⟨_, _, _, _, basis_read⟩ := decode_eq_pure read
  exact List.forall_mem_map.mpr (PivotBasis.wellFormed_of_decode basis_read)

end EncodedBasis

end RowReduction
