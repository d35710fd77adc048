import Mathlib
import RowReduction.Preimage
import RowReduction.Proofs.Preservation
import RowReduction.Proofs.Schedules

/-!
What a reduction leaves and answers depends on its pacer by the row at which it is interrupted, and
by nothing else. Loops that are interrupted at the same row have done the same, whoever raised the
flag and when. A loop can be interrupted at every row where it reports and at no other one, so what
is proved about listeners covers a flag that is raised from elsewhere while the loop runs.
-/
namespace RowReduction

namespace Pacer

variable {s s' : Pacer} {mask row total : Nat}

/-- Of two loops that are interrupted at the same row either both pass a checkpoint, or both are
interrupted there. -/
theorem checkpoint_alike {remaining i : Nat}
    (alike : (s.walk total (remaining + 1) i).2 = (s'.walk total (remaining + 1) i).2) :
    (∃ next next', s.checkpoint i total = ⟨next, .ok ()⟩ ∧
      s'.checkpoint i total = ⟨next', .ok ()⟩ ∧
      (next.walk total remaining (i + 1)).2 = (next'.walk total remaining (i + 1)).2) ∨
    (s.checkpoint i total = ⟨s, .error .interrupted⟩ ∧
      s'.checkpoint i total = ⟨s', .error .interrupted⟩) := by
  have behind (next : Pacer) : (next.walk total remaining (i + 1)).2 ≠ some i := by
    intro stopped
    have := (walk_range total remaining (i + 1) stopped).1
    omega
  rw [walk, walk] at alike
  rcases checkpoint_cases s i total with ⟨next, passed, -⟩ | ⟨here, -⟩ <;>
    rcases checkpoint_cases s' i total with ⟨next', passed', -⟩ | ⟨here', -⟩
  · rw [passed, passed'] at alike
    exact .inl ⟨next, next', passed, passed', alike⟩
  · rw [passed, here'] at alike
    exact absurd alike (behind next)
  · rw [here, passed'] at alike
    exact absurd alike.symm (behind next')
  · exact .inr ⟨here, here'⟩

theorem checkpoint_mask (i total : Nat) : (s.checkpoint i total).state.mask = s.mask := by
  unfold checkpoint
  split
  · rfl
  · split
    · rfl
    · exact deliver_mask _

/-- A loop is interrupted at a row where it reports. -/
theorem samples_of_walk {remaining i : Nat} (stopped : (s.walk total remaining i).2 = some row) :
    row &&& s.mask = 0 := by
  induction remaining generalizing s i with
  | zero => cases stopped
  | succ remaining ih =>
    have mask := s.checkpoint_mask i total
    rw [walk] at stopped
    rcases checkpoint_cases s i total with ⟨next, passed, -⟩ | ⟨here, -⟩
    · rw [passed] at stopped mask
      rw [← mask]
      exact ih stopped
    · rw [here] at stopped
      obtain rfl : i = row := Option.some.inj stopped
      by_contra unsampled
      have passed : s.samples i = false := by simpa [samples] using unsampled
      rw [checkpoint, if_pos passed] at here
      cases here

/-- Whether the loop reports at no row from `i` up to `row`. -/
def quiet (mask row i : Nat) : Bool :=
  (List.range' i (row - i)).all fun k => k &&& mask != 0

theorem quiet_self : quiet mask row row = true := by
  rw [quiet, Nat.sub_self]
  rfl

theorem quiet_of_lt (mask : Nat) {i : Nat} (before : i < row) :
    quiet mask row i = (i &&& mask != 0 && quiet mask row (i + 1)) := by
  have steps : row - i = row - (i + 1) + 1 := by omega
  rw [quiet, steps, List.range'_succ, List.all_cons, quiet]

/-- Raises the flag at the last report before `row`. -/
def stoppingListener (mask row : Nat) : Listener := fun _ report =>
  match report with
  | .atRow k _ => quiet mask row (k + 1)
  | .endOfPass => false

/-- A pacer that is interrupted at `row`. Its flag is raised from the start if no report comes
before. -/
def stoppingAt (mask row : Nat) : Pacer :=
  ⟨mask, some (stoppingListener mask row), some ⟨quiet mask row 0⟩, #[]⟩

theorem walk_of_quiet (reported : row &&& mask = 0) {remaining i : Nat} (ahead : i ≤ row)
    (inside : row < i + remaining) (masked : s.mask = mask)
    (listens : s.listener = some (stoppingListener mask row))
    (flagged : s.flag = some ⟨quiet mask row i⟩) :
    (s.walk total remaining i).2 = some row := by
  induction remaining generalizing s i with
  | zero => omega
  | succ remaining ih =>
    have raised : s.mustStop = quiet mask row i := by rw [mustStop, flagged, Option.any_some]
    rw [walk, checkpoint, samples, raised, masked]
    rcases Nat.eq_or_lt_of_le ahead with rfl | before
    · rw [reported, quiet_self]
      rfl
    · have later := quiet_of_lt mask before
      by_cases reports : i &&& mask = 0
      · simp only [reports, bne_self_eq_false, Bool.false_and] at later
        simp only [reports, later, beq_self_eq_true, Bool.true_eq_false, Bool.false_eq_true,
          if_false]
        refine ih (by omega) (by omega) ((deliver_mask _).trans masked) ?_ ?_
        · rw [deliver_eq listens, listens]
        · rw [deliver_eq listens, flagged, later]
          rfl
      · simp only [bne_iff_ne.mpr reports, Bool.true_and] at later
        simp only [beq_eq_false_iff_ne.mpr reports, if_true]
        exact ih (by omega) (by omega) masked listens (later ▸ flagged)

/-- The rows at which a loop can be interrupted are those where it reports. -/
theorem exists_stopRow_iff :
    (∃ s : Pacer, s.mask = mask ∧ s.stopRow total = some row) ↔ row < total ∧ row &&& mask = 0 := by
  constructor
  · rintro ⟨s, rfl, stopped⟩
    have range := walk_range total total 0 stopped
    exact ⟨by omega, samples_of_walk stopped⟩
  · rintro ⟨inside, reported⟩
    exact ⟨stoppingAt mask row, rfl,
      walk_of_quiet reported (Nat.zero_le row) (by omega) rfl rfl rfl⟩

end Pacer

/-- What a call leaves, as `view` shows it, and what it answers. -/
def Outcome.mapState {σ ρ ε α : Type} (view : σ → ρ) (outcome : Outcome σ ε α) : Outcome ρ ε α :=
  ⟨view outcome.state, outcome.answer⟩

/-- Two calls end alike in all that `view` shows of what they leave. -/
def EndAlike {σ ρ ε α : Type} (view : σ → ρ) (call call' : Checked (Outcome σ ε α)) : Prop :=
  (call.map fun outcome => outcome.mapState view) = call'.map fun outcome => outcome.mapState view

theorem EndAlike.refl {σ ρ ε α : Type} {view : σ → ρ} (call : Checked (Outcome σ ε α)) :
    EndAlike view call call := rfl

/-- Calls that end alike go on alike, if what follows does not use more than they show. -/
theorem EndAlike.bind {σ ρ ε α σ' ρ' ε' α' : Type} {view : σ → ρ} {view' : σ' → ρ'}
    {call call' : Checked (Outcome σ ε α)} (alike : EndAlike view call call')
    {next : Outcome σ ε α → Checked (Outcome σ' ε' α')}
    (follows : ∀ s s' answer, view s = view s' →
      EndAlike view' (next ⟨s, answer⟩) (next ⟨s', answer⟩)) :
    EndAlike view' (call >>= next) (call' >>= next) := by
  cases call with
  | error rule =>
    cases call' with
    | error rule' =>
      cases alike
      exact .refl _
    | ok outcome => cases alike
  | ok outcome =>
    cases call' with
    | error rule' => cases alike
    | ok outcome' =>
      obtain ⟨s, answer⟩ := outcome
      obtain ⟨s', answer'⟩ := outcome'
      simp only [EndAlike, Except.map, Outcome.mapState, Except.ok.injEq, Outcome.mk.injEq] at alike
      obtain ⟨states, rfl⟩ := alike
      exact follows s s' answer states

theorem EndAlike.after {β σ ρ ε α : Type} {view : σ → ρ} (first : Checked β)
    {next next' : β → Checked (Outcome σ ε α)} (alike : ∀ b, EndAlike view (next b) (next' b)) :
    EndAlike view (first >>= next) (first >>= next') := by
  cases first with
  | error rule => rfl
  | ok b => exact alike b

variable {e : Encoding} {τ : Type} {pacer pacer' : Pacer}

namespace Elimination

/-- The state without its pacer. -/
def work (s : Elimination e τ) : Workspace e × τ × KeptRows × Array Pivot × Array Nat :=
  (s.workspace, s.follower, s.kept, s.pivots, s.dependent)

variable {follow : Follow e τ}

theorem visit_pacer (s : Elimination e τ) (i : Nat) :
    visit follow { s with pacer } i = (fun next => { next with pacer }) <$> visit follow s i := by
  rw [visit, visit, map_bind]
  congr 1
  funext found
  cases found with
  | none => rfl
  | some pivot =>
    simp only [map_bind]
    rfl

theorem visitFrom_alike {total remaining i : Nat} (s : Elimination e τ)
    (alike : (pacer.walk total remaining i).2 = (pacer'.walk total remaining i).2) :
    EndAlike work (visitFrom follow total remaining i { s with pacer })
      (visitFrom follow total remaining i { s with pacer := pacer' }) := by
  induction remaining generalizing s i pacer pacer' with
  | zero => rfl
  | succ remaining ih =>
    rw [visitFrom, visitFrom]
    rcases Pacer.checkpoint_alike alike with ⟨next, next', passed, passed', later⟩ | ⟨here, here'⟩
    · simp only [passed, passed', visit_pacer]
      cases visit follow s i with
      | error rule => rfl
      | ok visited => exact ih visited later
    · simp only [here, here']
      rfl

theorem run_alike [Storage.Memory] (s : Elimination e τ)
    (alike : pacer.stopRow s.workspace.matrix.rows = pacer'.stopRow s.workspace.matrix.rows) :
    EndAlike work (run follow { s with pacer }) (run follow { s with pacer := pacer' }) := by
  refine (visitFrom_alike s alike).bind ?_
  rintro ⟨workspace, follower, kept, pivots, dependent, pacer⟩ s' answer same
  cases same
  cases answer <;> rfl

end Elimination

namespace RowMatrix

variable {m l image : RowMatrix e}

/-- A split that is interrupted at the same row leaves the same matrix. -/
theorem split_alike [Storage.Memory] (wanted : Wanted)
    (alike : pacer.stopRow m.rows = pacer'.stopRow m.rows) :
    EndAlike Prod.fst (m.split wanted pacer) (m.split wanted pacer') := by
  unfold split
  refine .after _ fun prepared => ?_
  cases prepared with
  | error failure => rfl
  | ok built =>
    refine (Elimination.run_alike (.start ⟨m, built.1, built.2⟩ () pacer) alike).bind ?_
    intro s s' answer same
    obtain ⟨workspaces, -, -, pivots, dependents⟩ : _ ∧ _ ∧ _ ∧ _ ∧ _ := by
      simpa only [Elimination.work, Prod.mk.injEq] using same
    have collected : outputs wanted s = outputs wanted s' := by
      simp only [outputs, workspaces, pivots, dependents]
    cases answer with
    | error stopped =>
      simp only [workspaces]
      rfl
    | ok _ =>
      simp only [collected, workspaces]
      refine .after _ fun result => ?_
      cases result <;> rfl

/-- An elimination with rows to reduce that is interrupted at the same row leaves the same matrix
and the same rows. -/
theorem preimages_alike [Storage.Memory] (alike : pacer.stopRow m.rows = pacer'.stopRow m.rows) :
    EndAlike (fun s => (s.matrix, s.residues)) (m.preimages l pacer) (m.preimages l pacer') := by
  unfold preimages
  refine .after _ fun _ => .after _ fun prepared => ?_
  cases prepared with
  | error failure => rfl
  | ok built =>
    let start : Elimination e (Reduction e) := .start ⟨m, some built.2, none⟩ ⟨l, built.1⟩ pacer
    refine (Elimination.run_alike start alike).bind ?_
    intro s s' answer same
    obtain ⟨workspaces, followers, -⟩ : _ ∧ _ ∧ _ := by
      simpa only [Elimination.work, Prod.mk.injEq] using same
    simp only [workspaces, followers]
    rfl

/-- A loop over the rows of an image makes the plain steps up to the row where it is interrupted. -/
theorem reduceFrom_eq (remaining r : Nat) (m : RowMatrix e) (pacer : Pacer) :
    reduceFrom image remaining r m pacer =
      (fun reduced => ⟨(reduced, (pacer.walk image.rows remaining r).1),
        Pacer.ending (pacer.walk image.rows remaining r).2⟩) <$>
      (List.range' r ((pacer.walk image.rows remaining r).2.getD (r + remaining) - r)).foldlM
        (fun m r => m.reduceByRow image r) m := by
  induction remaining generalizing m r pacer with
  | zero =>
    simp [reduceFrom, Pacer.walk, Pacer.ending]
  | succ remaining ih =>
    rw [reduceFrom, Pacer.walk]
    rcases pacer.checkpoint_cases r image.rows with ⟨next, passed, -⟩ | ⟨here, -⟩
    · have forward := next.le_reached image.rows remaining (r + 1)
      have steps : r + (remaining + 1) = r + 1 + remaining := by omega
      simp only [passed, steps, Pacer.range_reached forward, List.foldlM_cons, map_bind]
      congr 1
      funext reduced
      exact ih (r + 1) reduced next
    · simp [here, Pacer.ending]

theorem rows_of_addRowOf {m' other : RowMatrix e} {t s c start : Nat}
    (call : m.addRowOf other t s c start = .ok m') : m'.rows = m.rows := by
  obtain ⟨-, rfl⟩ | ⟨-, -, -, -, rfl⟩ := addRowOf_cases call <;> rfl

theorem rows_of_reduceByRow {m' : RowMatrix e} {r : Nat} (call : m.reduceByRow image r = .ok m') :
    m'.rows = m.rows :=
  reduceByRow_keeps (P := fun reduced : RowMatrix e => reduced.rows = m.rows)
    (fun rows added => (rows_of_addRowOf added).trans rows) rfl call

/-- A quotient that is interrupted at the same row of the same loop leaves the same matrix. -/
theorem quotientBasis_alike [Storage.Memory]
    (first : pacer.stopRow image.rows = pacer'.stopRow image.rows)
    (second : (pacer.afterRows image.rows).endPass.stopRow m.rows =
      (pacer'.afterRows image.rows).endPass.stopRow m.rows) :
    EndAlike Prod.fst (m.quotientBasis image pacer) (m.quotientBasis image pacer') := by
  unfold quotientBasis
  refine .after _ fun _ => ?_
  cases checkWidths m.columns image.columns with
  | error failure => rfl
  | ok _ =>
    have stops : (pacer.walk image.rows image.rows 0).2 = (pacer'.walk image.rows image.rows 0).2 :=
      first
    simp only [reduceFrom_eq, ← stops]
    cases steps : (List.range' 0 ((pacer.walk image.rows image.rows 0).2.getD
        (0 + image.rows) - 0)).foldlM (fun m r => m.reduceByRow image r) m with
    | error rule => rfl
    | ok reduced =>
      cases (pacer.walk image.rows image.rows 0).2 with
      | some row => rfl
      | none =>
        have rows : reduced.rows = m.rows := foldlM_keeps
          (P := fun reduced : RowMatrix e => reduced.rows = m.rows)
          (fun _ _ _ rows step => (rows_of_reduceByRow step).trans rows) rfl steps
        rw [← rows] at second
        let start : Elimination e Unit := .start ⟨reduced, none, none⟩ () pacer
        refine (Elimination.run_alike start second).bind ?_
        intro s s' answer same
        obtain ⟨workspaces, -⟩ : _ ∧ _ := by
          simpa only [Elimination.work, Prod.mk.injEq] using same
        simp only [workspaces]
        rfl

end RowMatrix

theorem Reduction.replay_alike {b : PivotBasis (RowMatrix e)} {k : Nat} {pivots : List Pivot}
    (s : Reduction e)
    (alike : (pacer.walk b.rank pivots.length k).2 = (pacer'.walk b.rank pivots.length k).2) :
    EndAlike Prod.fst (replay b k s pacer pivots) (replay b k s pacer' pivots) := by
  induction pivots generalizing k s pacer pacer' with
  | nil => rfl
  | cons pivot rest ih =>
    rw [replay, replay]
    rcases Pacer.checkpoint_alike alike with ⟨next, next', passed, passed', later⟩ | ⟨here, here'⟩
    · simp only [passed, passed']
      cases s.reduceRows b.image b.combinations pivot with
      | error rule => rfl
      | ok reduced => exact ih reduced later
    · simp only [here, here']
      rfl

/-- A replay that is interrupted at the same pivot leaves the same rows. -/
theorem PivotBasis.preimages_alike [Storage.Memory] {b : PivotBasis (RowMatrix e)} {l : RowMatrix e}
    (alike : pacer.stopRow b.rank = pacer'.stopRow b.rank) :
    EndAlike Prod.fst (b.preimages l pacer) (b.preimages l pacer') := by
  unfold preimages
  refine .after _ fun _ => .after _ fun prepared => ?_
  cases prepared with
  | error failure => rfl
  | ok subtracted =>
    refine (Reduction.replay_alike ⟨l, subtracted⟩ alike).bind ?_
    rintro ⟨s, pacer⟩ ⟨s', pacer'⟩ answer same
    cases same
    rfl

end RowReduction
