import Mathlib
import RowReduction.Splitting
import RowReduction.Proofs.Elimination
import RowReduction.Proofs.PivotBasis

/-!
What a split leaves and answers, in terms of the settled rows of the matrix. Every call ends in
one of three ways: it is refused the storage for an identity, it is interrupted, or it is
complete.
-/
namespace RowReduction

open EchelonForm

variable {e : Encoding}

/-- A call that keeps to the rules ends in one of three ways. It is refused storage only if the
buffers are too large, it is interrupted only by its pacer, and otherwise it has a good answer. -/
def Ends {σ α : Type} (call : Checked (Outcome σ ReductionError α)) (tooLarge stopped : Prop)
    (good : σ → α → Prop) : Prop :=
  ∃ outcome, call = .ok outcome ∧
    match outcome.answer with
    | .error (.storage _) => tooLarge
    | .error .interrupted => stopped
    | .ok answer => good outcome.state answer

theorem Ends.imp {σ α : Type} {call : Checked (Outcome σ ReductionError α)}
    {tooLarge tooLarge' stopped stopped' : Prop} {good good' : σ → α → Prop}
    (ends : Ends call tooLarge stopped good) (large : tooLarge → tooLarge')
    (stop : stopped → stopped') (better : ∀ state answer, good state answer → good' state answer) :
    Ends call tooLarge' stopped' good' := by
  obtain ⟨⟨state, answer⟩, call, ended⟩ := ends
  refine ⟨⟨state, answer⟩, call, ?_⟩
  match answer, ended with
  | .error (.storage _), ended => exact large ended
  | .error .interrupted, ended => exact stop ended
  | .ok answer, ended => exact better state answer ended

theorem ends_of_cases {σ α : Type} {call : Checked (Outcome σ ReductionError α)} {tooLarge : Prop}
    {stop : Option Nat} {good : σ → α → Prop}
    (refused : tooLarge → ∃ state failure, call = .ok ⟨state, .error (.storage failure)⟩)
    (interrupted : ¬ tooLarge → ∀ row, stop = some row →
      ∃ state, call = .ok ⟨state, .error .interrupted⟩)
    (complete : ¬ tooLarge → stop = none →
      ∃ state answer, call = .ok ⟨state, .ok answer⟩ ∧ good state answer) :
    Ends call tooLarge (stop ≠ none) good := by
  by_cases large : tooLarge
  · obtain ⟨state, failure, call⟩ := refused large
    exact ⟨_, call, large⟩
  · cases stop with
    | none =>
      obtain ⟨state, answer, call, holds⟩ := complete large rfl
      exact ⟨_, call, holds⟩
    | some row =>
      obtain ⟨state, call⟩ := interrupted large row rfl
      exact ⟨_, call, Option.some_ne_none row⟩

namespace RowMatrix

variable {p : SmallPrime} {m n : Nat}

/-- The rows of a matrix, each with the record that it is itself. -/
abbrev recordedRows (a : RowMatrix e) (j : Nat) :
    Pair a.prime a.columns a.rows :=
  recorded (a.vec a.prime a.columns) a.rows j

def pivotsOf (a : RowMatrix e) : List Pivot := pivotsBefore a.recordedRows a.rows

def dependentOf (a : RowMatrix e) : List Nat := dependentBefore a.recordedRows a.rows

/-- Row `j` of a matrix once it was visited, and the initial rows it is combined from. -/
abbrev settledPair (a : RowMatrix e) (j : Nat) : Pair a.prime a.columns a.rows :=
  Pair.settled a.recordedRows j

section

variable [Storage.Memory]

/-- Row `t` of the kernel is the record of the `t`-th dependent row. -/
structure HoldsKernel (a kernel : RowMatrix e) : Prop where
  shaped : kernel.Shaped a.prime a.dependentOf.length a.rows
  rows : ∀ t q, a.dependentOf[t]? = some q →
    kernel.vec a.prime a.rows t = (a.settledPair q).2

/-- Row `t` of the dual is the unit vector of the `t`-th dependent row. -/
structure HoldsDual (a dual : RowMatrix e) : Prop where
  shaped : dual.Shaped a.prime a.dependentOf.length a.rows
  rows : ∀ t q, a.dependentOf[t]? = some q →
    dual.vec a.prime a.rows t = (a.recordedRows q).2

/-- A basis keeps the matrix that was left, the records of its rows and the pivots. -/
structure HoldsBasis (a left : RowMatrix e) (b : PivotBasis (RowMatrix e)) : Prop where
  image : b.image = left
  shaped : b.combinations.Shaped a.prime a.pivotsOf.length a.rows
  rows : ∀ k pivot, a.pivotsOf[k]? = some pivot →
    b.combinations.vec a.prime a.rows k = (a.settledPair pivot.row).2
  pivots : b.pivots = PivotBasis.renumber a.pivotsOf

/-- Row `k` of the matrix that is left is the settled row of the `k`-th pivot. -/
structure HoldsImage (a left : RowMatrix e) : Prop where
  shaped : left.Shaped a.prime a.pivotsOf.length a.columns
  rows : ∀ k pivot, a.pivotsOf[k]? = some pivot →
    left.vec a.prime a.columns k = (a.settledPair pivot.row).1

/-- What an elimination leaves that has only visited the first `i` rows: the settled rows with a
pivot stand at the front, and behind them every row is as far as it is reduced by then. -/
structure HoldsVisited (a : RowMatrix e) (i : Nat) (left : RowMatrix e) : Prop where
  shaped : left.Shaped a.prime a.rows a.columns
  kept : ∀ k pivot, (pivotsBefore a.recordedRows i)[k]? = some pivot →
    left.vec a.prime a.columns k = (a.settledPair pivot.row).1
  others : ∀ q, (pivotsBefore a.recordedRows i).length ≤ q → q < a.rows →
    left.vec a.prime a.columns q =
      (stage (Pair.vector a.prime a.columns a.rows) a.recordedRows i q).1

/-- The matrix `left` and the answer `d` of a complete split of `a`. -/
structure SplitsInto (a : RowMatrix e) (wanted : Wanted) (left : RowMatrix e)
    (d : Splitting (RowMatrix e)) : Prop where
  image : a.HoldsImage left
  rank : d.rank = a.pivotsOf.length
  kernel_isSome : d.kernel.isSome = wanted.kernel
  kernel : ∀ kernel ∈ d.kernel, a.HoldsKernel kernel
  dual_isSome : d.dual.isSome = wanted.dual
  dual : ∀ dual ∈ d.dual, a.HoldsDual dual
  basis_isSome : d.basis.isSome = wanted.basis
  basis : ∀ b ∈ d.basis, a.HoldsBasis left b

structure IsUnit (u : RowMatrix e) (p : SmallPrime) (m : Nat) : Prop where
  shaped : u.Shaped p m m
  rows : ∀ i, i < m → u.vec p m i = fun l => if l.val = i then 1 else 0

end

section OnDemand

variable {α : Type} {P : α → Prop}

theorem onDemand_ok (wanted : Bool) {construction : Build α}
    (built : wanted = true → ∃ x, construction = pure x ∧ P x) :
    ∃ o, onDemand wanted construction = pure o ∧ o.isSome = wanted ∧ ∀ x ∈ o, P x := by
  cases wanted with
  | false => exact ⟨none, rfl, rfl, by simp⟩
  | true =>
    obtain ⟨x, result, good⟩ := built rfl
    refine ⟨some x, ?_, rfl, ?_⟩
    · rw [onDemand, if_pos rfl, result]
      rfl
    · intro y hy
      rw [← Option.mem_some.mp hy]
      exact good

/-- What is made from the change of basis, which is there if it is needed. -/
theorem onDemand_of_ok {combination : Option (RowMatrix e)} (wanted : Bool)
    (there : wanted = true → combination.isSome = true) {f : RowMatrix e → Build α}
    (built : ∀ u ∈ combination, ∃ x, f u = pure x ∧ P x) :
    ∃ o, (match combination with
      | some u => onDemand wanted (f u)
      | none => pure none) = pure o ∧ o.isSome = wanted ∧ ∀ x ∈ o, P x := by
  cases combination with
  | none =>
    have unwanted : wanted = false := by simpa using there
    exact ⟨none, rfl, unwanted.symm, by simp⟩
  | some u => exact onDemand_ok wanted fun _ => built u rfl

theorem mapM_ok {companion : Option (RowMatrix e)} {f : RowMatrix e → Build α}
    (built : ∀ u ∈ companion, ∃ x, f u = pure x ∧ P x) :
    ∃ o, companion.mapM f = pure o ∧ o.isSome = companion.isSome ∧ ∀ x ∈ o, P x := by
  cases companion with
  | none => exact ⟨none, rfl, rfl, by simp⟩
  | some u =>
    obtain ⟨x, result, good⟩ := built u rfl
    refine ⟨some x, ?_, rfl, ?_⟩
    · rw [Option.mapM_some, result]
      rfl
    · intro y hy
      rw [← Option.mem_some.mp hy]
      exact good

end OnDemand

theorem identities_ok [Storage.Memory] (supported : e.canStore p = true)
    (size : m ≤ Storage.maxSize) (wanted : Wanted) (fits : wanted ≠ .nothing → Fits e m m) :
    ∃ combination dual : Option (RowMatrix e),
      identities p m wanted = pure (combination, dual) ∧
      combination.isSome = (wanted.kernel || wanted.basis) ∧ dual.isSome = wanted.dual ∧
      (∀ u ∈ combination, u.IsUnit p m) ∧ ∀ d ∈ dual, d.IsUnit p m := by
  have unit_ok (enough : Fits e m m) :
      ∃ u : RowMatrix e, identity p m = pure u ∧ u.IsUnit p m := by
    obtain ⟨u, built, shaped, rows⟩ := identity_ok supported size enough
    exact ⟨u, built, shaped, rows⟩
  obtain ⟨combination, built, present, unit⟩ :=
    onDemand_ok (P := fun u : RowMatrix e => u.IsUnit p m) (wanted.kernel || wanted.basis)
      fun some_wanted => unit_ok (fits (by rintro rfl; simp [Wanted.nothing] at some_wanted))
  obtain ⟨dual, dual_built, dual_present, dual_unit⟩ :=
    onDemand_ok (P := fun u : RowMatrix e => u.IsUnit p m) wanted.dual
      fun dual_wanted => unit_ok (fits (by rintro rfl; simp [Wanted.nothing] at dual_wanted))
  refine ⟨combination, dual, ?_, present, dual_present, unit, dual_unit⟩
  rw [identities, built, dual_built]
  rfl

theorem identities_refused [Storage.Memory] (supported : e.canStore p = true) {wanted : Wanted}
    (something : wanted ≠ .nothing) (large : ¬ Fits e m m) :
    ∃ cells bytes,
      (identities p m wanted : Build (Option (RowMatrix e) × Option (RowMatrix e))) =
        throw (.outOfMemory cells bytes) := by
  obtain ⟨cells, bytes, refused⟩ := new_of_not_fits supported large
  have no_identity : (identity p m : Build (RowMatrix e)) =
      throw (.outOfMemory cells bytes) := by
    rw [identity, refused]
    rfl
  refine ⟨cells, bytes, ?_⟩
  rw [identities, no_identity]
  obtain ⟨kernel, dual, basis⟩ := wanted
  cases kernel <;> cases dual <;> cases basis <;> first | rfl | exact absurd rfl something

section Workspaces

variable {a : RowMatrix e} {combination dual : Option (RowMatrix e)}

theorem settledPair_fst (j : Nat) :
    (Pair.settled ((⟨a, combination, dual⟩ : Workspace e).pair a.prime a.columns a.rows) j).1 =
      (a.settledPair j).1 :=
  settled_fst_congr fun _ _ => rfl

theorem pivotsOf_eq :
    pivotsBefore ((⟨a, combination, dual⟩ : Workspace e).pair a.prime a.columns a.rows) a.rows =
      a.pivotsOf :=
  pivotsBefore_congr fun _ _ => rfl

theorem dependentOf_eq :
    dependentBefore ((⟨a, combination, dual⟩ : Workspace e).pair a.prime a.columns a.rows) a.rows =
      a.dependentOf :=
  dependentBefore_congr fun _ _ => rfl

/-- With the identity as change of basis, the settled rows carry their records. -/
theorem settledPair_eq [Storage.Memory] (there : combination.isSome = true)
    (unit : ∀ u ∈ combination, u.IsUnit a.prime a.rows) {j : Nat} (hj : j < a.rows) :
    Pair.settled ((⟨a, combination, dual⟩ : Workspace e).pair a.prime a.columns a.rows) j =
      a.settledPair j := by
  obtain ⟨u, rfl⟩ := Option.isSome_iff_exists.mp there
  apply settledRow_congr
  intro i hi
  exact Prod.ext rfl ((unit u rfl).rows i (Nat.lt_of_le_of_lt hi hj))

theorem pivotsOf_row_lt {pivot : Pivot} (member : pivot ∈ a.pivotsOf) : pivot.row < a.rows :=
  (mem_pivotsBefore.mp member).1

theorem length_pivotsOf_add : a.pivotsOf.length + a.dependentOf.length = a.rows :=
  length_before a.rows

theorem dependentOf_lt {q : Nat} (member : q ∈ a.dependentOf) : q < a.rows :=
  (mem_dependentBefore.mp member).1

variable [Storage.Memory] {τ : Type} {s : Elimination e τ}

theorem holdsImage_of_finished
    (finished : s.Finished ⟨a, combination, dual⟩ a.prime a.rows a.columns) :
    a.HoldsImage s.workspace.matrix := by
  have shaped := finished.matrix
  rw [pivotsOf_eq] at shaped
  refine ⟨shaped, ?_⟩
  intro k pivot place
  rw [← settledPair_fst]
  exact finished.rows k pivot (by rw [pivotsOf_eq]; exact place)

theorem holdsVisited_of_agrees {i : Nat}
    (agrees : s.Agrees ⟨a, combination, dual⟩ a.prime a.rows a.columns i) :
    a.HoldsVisited i s.workspace.matrix := by
  have pivots : pivotsBefore
      ((⟨a, combination, dual⟩ : Workspace e).pair a.prime a.columns a.rows) i =
        pivotsBefore a.recordedRows i := pivotsBefore_congr fun _ _ => rfl
  have stages (q : Nat) : (stage (Pair.vector a.prime a.columns a.rows)
      ((⟨a, combination, dual⟩ : Workspace e).pair a.prime a.columns a.rows) i q).1 =
        (stage (Pair.vector a.prime a.columns a.rows) a.recordedRows i q).1 := by
    apply stage_fst_congr
    intro k
    rfl
  refine ⟨agrees.shaped.matrix, ?_, ?_⟩
  · intro k pivot place
    exact (agrees.kept_rows k pivot (pivots ▸ place)).trans (settledPair_fst pivot.row)
  · intro q behind inside
    refine (agrees.other_rows q ?_ inside).trans (stages q)
    simp only [agrees.next, pivots]
    exact behind

theorem records_of_finished
    (finished : s.Finished ⟨a, combination, dual⟩ a.prime a.rows a.columns)
    (unit : ∀ u ∈ combination, u.IsUnit a.prime a.rows) {u : RowMatrix e}
    (hu : u ∈ s.workspace.combination) :
    u.Shaped a.prime a.rows a.rows ∧
      ∀ q, q < a.rows → u.vec a.prime a.rows q = (a.settledPair q).2 := by
  refine ⟨finished.combination u hu, ?_⟩
  intro q hq
  have there : combination.isSome = true := by
    rw [← finished.combination_isSome, Option.mem_def.mp hu]
    rfl
  have record := finished.records q hq
  rw [settledPair_eq there unit hq, Option.mem_def.mp hu] at record
  exact record

theorem collect_holdsBasis {u left : RowMatrix e} (image : a.HoldsImage left)
    (h : u.Shaped a.prime a.rows a.rows)
    (records : ∀ q, q < a.rows → u.vec a.prime a.rows q = (a.settledPair q).2) :
    ∃ b, PivotBasis.collect left u a.pivotsOf = pure b ∧ a.HoldsBasis left b := by
  have fewer : a.pivotsOf.length ≤ a.rows := length_pivotsBefore_le a.rows
  obtain ⟨combinations, result, shaped, placed⟩ :=
    PivotBasis.collect_ok image.shaped h rfl fewer fun pivot member => pivotsOf_row_lt member
  refine ⟨_, result, rfl, shaped, ?_, rfl⟩
  intro k pivot place
  rw [placed k pivot place]
  exact records pivot.row (pivotsOf_row_lt (List.mem_of_getElem? place))

theorem keepDependent_ok {u : RowMatrix e} (h : u.Shaped a.prime a.rows a.rows) :
    ∃ kept, u.keepDependent a.dependentOf = pure kept ∧
      kept.Shaped a.prime a.dependentOf.length a.rows ∧
      ∀ t q, a.dependentOf[t]? = some q →
        kept.vec a.prime a.rows t = u.vec a.prime a.rows q := by
  obtain ⟨kept, run, shaped, rows⟩ := h.keepRows_ok a.dependentOf
    (dependentBefore_pairwise _ a.rows) fun q member => dependentOf_lt member
  refine ⟨kept, ?_, shaped, rows⟩
  rw [keepDependent, run]
  rfl

theorem keepDependent_holdsKernel {u : RowMatrix e} (h : u.Shaped a.prime a.rows a.rows)
    (records : ∀ q, q < a.rows → u.vec a.prime a.rows q = (a.settledPair q).2) :
    ∃ kernel, u.keepDependent a.dependentOf = pure kernel ∧ a.HoldsKernel kernel := by
  obtain ⟨kernel, run, shaped, rows⟩ := keepDependent_ok h
  refine ⟨kernel, run, shaped, ?_⟩
  intro t q place
  rw [rows t q place]
  exact records q (dependentOf_lt (List.mem_of_getElem? place))

theorem keepDependent_holdsDual
    (finished : s.Finished ⟨a, combination, dual⟩ a.prime a.rows a.columns)
    (unit : ∀ d ∈ dual, d.IsUnit a.prime a.rows) {d : RowMatrix e} (hd : d ∈ s.workspace.dual) :
    ∃ kept, d.keepDependent a.dependentOf = pure kept ∧ a.HoldsDual kept := by
  obtain ⟨kept, run, shaped, rows⟩ := keepDependent_ok (finished.dual d hd)
  refine ⟨kept, run, shaped, ?_⟩
  intro t q place
  obtain ⟨inside, zero⟩ := mem_dependentBefore.mp (List.mem_of_getElem? place)
  have unchanged := finished.dual_rows q (by rw [settledPair_fst]; exact zero)
  rw [Option.mem_def.mp hd] at unchanged
  obtain ⟨initial, rfl⟩ : ∃ initial, dual = some initial := by
    rw [← Option.isSome_iff_exists, ← finished.dual_isSome, Option.mem_def.mp hd]
    rfl
  exact (rows t q place).trans (unchanged.trans ((unit initial rfl).rows q inside))

/-- A finished elimination has the wanted outputs, and none of them is refused storage. -/
theorem outputs_ok {wanted : Wanted}
    (finished : s.Finished ⟨a, combination, dual⟩ a.prime a.rows a.columns)
    (present : combination.isSome = (wanted.kernel || wanted.basis))
    (dual_present : dual.isSome = wanted.dual)
    (unit : ∀ u ∈ combination, u.IsUnit a.prime a.rows)
    (dual_unit : ∀ d ∈ dual, d.IsUnit a.prime a.rows) :
    ∃ d, outputs wanted s = pure d ∧ a.SplitsInto wanted s.workspace.matrix d := by
  have image := holdsImage_of_finished finished
  have records (u) (hu : u ∈ s.workspace.combination) := records_of_finished finished unit hu
  have still : s.workspace.combination.isSome = (wanted.kernel || wanted.basis) :=
    finished.combination_isSome.trans present
  obtain ⟨basis, collected, basis_isSome, basis_ok⟩ := onDemand_of_ok wanted.basis
    (fun some_basis => by rw [still, some_basis, Bool.or_true])
    fun u hu => collect_holdsBasis image (records u hu).1 (records u hu).2
  obtain ⟨kernel, kept, kernel_isSome, kernel_ok⟩ := onDemand_of_ok wanted.kernel
    (fun some_kernel => by rw [still, some_kernel, Bool.true_or])
    fun u hu => keepDependent_holdsKernel (records u hu).1 (records u hu).2
  obtain ⟨duals, dual_kept, dual_isSome, dual_ok⟩ :=
    mapM_ok fun d hd => keepDependent_holdsDual finished dual_unit (d := d) hd
  refine ⟨⟨a.pivotsOf.length, kernel, duals, basis⟩, ?_, ?_⟩
  · have pivots := finished.pivots.trans pivotsOf_eq
    have dependent := finished.dependent.trans dependentOf_eq
    simp only [outputs, pivots, dependent]
    generalize s.workspace.combination = change at collected kept ⊢
    cases change <;> simp only [collected, kept, dual_kept, pure_bind]
  · exact {
      image := image
      rank := rfl
      kernel_isSome := kernel_isSome
      kernel := kernel_ok
      dual_isSome := dual_isSome.trans (finished.dual_isSome.trans dual_present)
      dual := dual_ok
      basis_isSome := basis_isSome
      basis := basis_ok }

end Workspaces

section Split

variable [Storage.Memory] {a : RowMatrix e}

theorem start_ok (wf : a.WellFormed) {wanted : Wanted}
    (fits : wanted ≠ .nothing → Fits e a.rows a.rows) :
    ∃ combination dual : Option (RowMatrix e),
      identities a.prime a.rows wanted = pure (combination, dual) ∧
      combination.isSome = (wanted.kernel || wanted.basis) ∧ dual.isSome = wanted.dual ∧
      (∀ u ∈ combination, u.IsUnit a.prime a.rows) ∧ (∀ d ∈ dual, d.IsUnit a.prime a.rows) ∧
      (⟨a, combination, dual⟩ : Workspace e).Shaped a.prime a.rows a.columns := by
  obtain ⟨combination, dual, built, present, dual_present, unit, dual_unit⟩ :=
    identities_ok wf.supported wf.rows_le wanted fits
  exact ⟨combination, dual, built, present, dual_present, unit, dual_unit, wf.shaped,
    fun u hu => (unit u hu).shaped, fun d hd => (dual_unit d hd).shaped⟩

theorem keeps_nothing (w : Workspace e) (p : SmallPrime) (m n : Nat) :
    Elimination.Keeps (fun _ _ _ => return ()) w p m n fun _ (_ : Unit) => True where
  skip _ _ _ _ _ := trivial
  step _ _ _ _ _ _ _ _ _ _ := ⟨(), rfl, trivial⟩

theorem split_ok (wf : a.WellFormed) {wanted : Wanted}
    (fits : wanted ≠ .nothing → Fits e a.rows a.rows) {pacer : Pacer}
    (uninterrupted : pacer.stopRow a.rows = none) :
    ∃ left d, a.split wanted pacer = .ok ⟨(left, pacer.afterRows a.rows), .ok d⟩ ∧
      a.SplitsInto wanted left d := by
  obtain ⟨combination, dual, built, present, dual_present, unit, dual_unit, shaped⟩ :=
    start_ok wf fits
  obtain ⟨s, run, finished, -, pacing⟩ := Elimination.run_complete shaped
    (keeps_nothing _ _ _ _) () trivial pacer uninterrupted
  obtain ⟨d, answered, splits⟩ := outputs_ok finished present dual_present unit dual_unit
  refine ⟨s.workspace.matrix, d, ?_, splits⟩
  rw [← pacing]
  rw [split, built, ExceptT.run_pure, pure_bind]
  dsimp only
  rw [run]
  simp only [bind, Except.bind, answered, ExceptT.run_pure]
  rfl

theorem split_interrupted (wf : a.WellFormed) {wanted : Wanted}
    (fits : wanted ≠ .nothing → Fits e a.rows a.rows) {pacer : Pacer} {row : Nat}
    (stopped : pacer.stopRow a.rows = some row) :
    ∃ left, a.split wanted pacer = .ok ⟨(left, pacer.afterRows a.rows), .error .interrupted⟩ ∧
      a.HoldsVisited row left := by
  obtain ⟨combination, dual, built, -, -, -, -, shaped⟩ := start_ok wf fits
  obtain ⟨s, run, agrees, -, pacing⟩ := Elimination.run_interrupted shaped
    (keeps_nothing _ _ _ _) () trivial pacer stopped
  refine ⟨s.workspace.matrix, ?_, holdsVisited_of_agrees agrees⟩
  rw [← pacing]
  rw [split, built, ExceptT.run_pure, pure_bind]
  dsimp only
  rw [run]
  rfl

theorem split_refused (wf : a.WellFormed) {wanted : Wanted} (something : wanted ≠ .nothing)
    (large : ¬ Fits e a.rows a.rows) (pacer : Pacer) :
    ∃ cells bytes,
      a.split wanted pacer = .ok ⟨(a, pacer), .error (.storage (.outOfMemory cells bytes))⟩ := by
  obtain ⟨cells, bytes, refused⟩ := identities_refused wf.supported something large
  refine ⟨cells, bytes, ?_⟩
  simp only [split, refused]
  rfl

theorem split_ends (wf : a.WellFormed) (wanted : Wanted) (pacer : Pacer) :
    Ends (a.split wanted pacer) (wanted ≠ .nothing ∧ ¬ Fits e a.rows a.rows)
      (pacer.stopRow a.rows ≠ none) fun left d => a.SplitsInto wanted left.1 d := by
  have fits (enough : ¬ (wanted ≠ .nothing ∧ ¬ Fits e a.rows a.rows))
      (something : wanted ≠ .nothing) : Fits e a.rows a.rows :=
    not_not.mp fun large => enough ⟨something, large⟩
  apply ends_of_cases
  · rintro ⟨something, large⟩
    obtain ⟨_, _, call⟩ := split_refused wf something large pacer
    exact ⟨_, _, call⟩
  · intro enough row stop
    obtain ⟨left, call, -⟩ := split_interrupted wf (fits enough) stop
    exact ⟨_, call⟩
  · intro enough stop
    obtain ⟨left, d, call, splits⟩ := split_ok wf (fits enough) stop
    exact ⟨_, _, call, splits⟩

end Split

end RowMatrix

end RowReduction
