import Mathlib
import RowReduction.QuotientBasis
import RowReduction.Proofs.Walk

/-!
Answered calls. A call that is answered has held to its rules, so its answer tells where it looked
and what it changed. The rows and entries of such a call are in range, and a loop keeps whatever
each of its steps keeps.
-/
namespace RowReduction

theorem bind_eq_ok {α β : Type} {x : Checked α} {next : α → Checked β} {b : β} :
    x >>= next = .ok b ↔ ∃ a, x = .ok a ∧ next a = .ok b := by
  constructor
  · intro result
    cases x with
    | error violation => cases result
    | ok a => exact ⟨a, rfl, result⟩
  · rintro ⟨a, rfl, last⟩
    exact last

/-- A check that is passed. -/
theorem check_bind_eq_ok {α : Type} {check : Checked Unit} {next : Unit → Checked α} {b : α} :
    check >>= next = .ok b ↔ check = .ok () ∧ next () = .ok b := by
  rw [bind_eq_ok]
  constructor
  · rintro ⟨_, passed, result⟩
    exact ⟨passed, result⟩
  · rintro ⟨passed, result⟩
    exact ⟨(), passed, result⟩

/-- What every step of a loop keeps, the loop keeps. -/
theorem foldlM_keeps {σ α : Type} {P : σ → Prop} {f : σ → α → Checked σ}
    (step : ∀ s a s', P s → f s a = .ok s' → P s') {list : List α} {s s' : σ} (h : P s)
    (run : list.foldlM f s = .ok s') : P s' := by
  induction list generalizing s with
  | nil =>
    cases run
    exact h
  | cons a rest ih =>
    rw [List.foldlM_cons, bind_eq_ok] at run
    obtain ⟨next, first, run⟩ := run
    exact ih (step s a next h first) run

variable {e : Encoding}

namespace RowMatrix

variable {m m' other : RowMatrix e} {i j t s c start value : Nat}

theorem entry_eq_ok :
    m.entry i j = .ok value ↔ j < m.columns ∧ i < m.rows ∧ m.read i j = value := by
  simp only [entry, requireColumn, requireRow, check_bind_eq_ok, require_eq_ok,
    decide_eq_true_eq, pure, Except.pure, Except.ok.injEq]

theorem putEntry_eq_ok :
    m.putEntry i j value = .ok m' ↔ j < m.columns ∧ i < m.rows ∧ m.write i j value = m' := by
  simp only [putEntry, requireColumn, requireRow, check_bind_eq_ok, require_eq_ok,
    decide_eq_true_eq, pure, Except.pure, Except.ok.injEq]

theorem leading_eq_ok {found : Option (Nat × Nat)} :
    m.leading i = .ok found ↔ i < m.rows ∧ Row.leading e (m.row i) m.columns = found := by
  simp only [leading, requireRow, check_bind_eq_ok, require_eq_ok, decide_eq_true_eq, pure,
    Except.pure, Except.ok.injEq]

/-- Nothing is added, or another row is. -/
theorem addRow_cases (call : m.addRow t s c start = .ok m') :
    (m.prime.reduce c = 0 ∧ m' = m) ∨
    (m.prime.reduce c ≠ 0 ∧ t ≠ s ∧ t < m.rows ∧ s < m.rows ∧
      m' = m.combine t (m.row s) (m.prime.reduce c) start) := by
  simp only [addRow] at call
  split at call
  · rename_i vanishes
    cases call
    exact .inl ⟨vanishes, rfl⟩
  · rename_i remains
    simp only [check_bind_eq_ok, require_eq_ok, bne_iff_ne, Bool.and_eq_true,
      decide_eq_true_eq] at call
    obtain ⟨apart, ⟨target, source⟩, result⟩ := call
    cases result
    exact .inr ⟨remains, apart, target, source, rfl⟩

/-- Nothing is added, or a row of an alike matrix is. -/
theorem addRowOf_cases (call : m.addRowOf other t s c start = .ok m') :
    (m.prime.reduce c = 0 ∧ m' = m) ∨
    (m.prime.reduce c ≠ 0 ∧ m.requireAlike other = .ok () ∧ t < m.rows ∧ s < other.rows ∧
      m' = m.combine t (other.row s) (m.prime.reduce c) start) := by
  simp only [addRowOf] at call
  by_cases vanishes : m.prime.reduce c = 0
  · refine .inl ⟨vanishes, ?_⟩
    simp only [vanishes, if_true] at call
    split at call
    · rw [check_bind_eq_ok] at call
      cases call.2
      rfl
    · cases call
      rfl
  · simp only [vanishes, not_false_eq_true, or_true, if_true, if_false, ne_eq,
      check_bind_eq_ok, requireRow, require_eq_ok, decide_eq_true_eq] at call
    obtain ⟨alike, target, source, result⟩ := call
    cases result
    exact .inr ⟨vanishes, alike, target, source, rfl⟩

theorem copyRow_eq_ok :
    m.copyRow t s = .ok m' ↔ t < m.rows ∧ s < m.rows ∧ m.replaceRow t (m.row s) = m' := by
  simp only [copyRow, check_bind_eq_ok, require_eq_ok, Bool.and_eq_true, decide_eq_true_eq,
    pure, Except.pure, Except.ok.injEq, and_assoc]

theorem copyRowOf_eq_ok :
    m.copyRowOf other t s = .ok m' ↔ m.requireAlike other = .ok () ∧ t < m.rows ∧
      s < other.rows ∧ m.replaceRow t (other.row s) = m' := by
  simp only [copyRowOf, check_bind_eq_ok, requireRow, require_eq_ok, decide_eq_true_eq,
    pure, Except.pure, Except.ok.injEq]

/-- What every sum with a row of an image keeps, all the sums with one row of it keep. -/
theorem reduceByRow_keeps {P : RowMatrix e → Prop} {image : RowMatrix e} {r : Nat}
    (step : ∀ {m m' : RowMatrix e} {t s c start : Nat}, P m →
      m.addRowOf image t s c start = .ok m' → P m')
    (h : P m) (call : m.reduceByRow image r = .ok m') : P m' := by
  simp only [reduceByRow, bind_eq_ok] at call
  obtain ⟨found, -, call⟩ := call
  cases found with
  | none =>
    cases call
    exact h
  | some pivot =>
    obtain ⟨coefficient, -, run⟩ := bind_eq_ok.mp call
    refine foldlM_keeps ?_ h run
    intro reduced k next kept cleared
    simp only [clearByImage, bind_eq_ok] at cleared
    obtain ⟨x, -, cleared⟩ := cleared
    split at cleared
    · cases cleared
      exact kept
    · exact step kept cleared

end RowMatrix

/-- A row is kept where it is, or it goes behind the rows that were kept before it. -/
theorem KeptRows.keep_cases {c c' : KeptRows} {m m' : RowMatrix e} {row : Nat}
    (call : c.keep m row = .ok (c', m')) :
    c' = ⟨c.next + 1⟩ ∧
    (c.next = row ∧ m' = m ∨ c.next < row ∧ m.copyRow c.next row = .ok m') := by
  rw [keep, check_bind_eq_ok, require_eq_ok, decide_eq_true_eq] at call
  obtain ⟨ahead, call⟩ := call
  split at call
  · rename_i there
    cases call
    exact ⟨rfl, .inl ⟨there, rfl⟩⟩
  · rename_i elsewhere
    obtain ⟨moved, copied, result⟩ := bind_eq_ok.mp call
    cases result
    exact ⟨rfl, .inr ⟨Nat.lt_of_le_of_ne ahead elsewhere, copied⟩⟩

namespace Elimination

variable {τ : Type} {follow : Follow e τ} {s s' : Elimination e τ} {i : Nat}

/-- A row that vanishes is set aside, and any other row is cleared from the rows below and kept. -/
theorem visit_cases (call : s.visit follow i = .ok s') :
    (s.workspace.matrix.leading i = .ok none ∧ s' = { s with dependent := s.dependent.push i }) ∨
    ∃ column value coefficient workspace follower kept matrix,
      s.workspace.matrix.leading i = .ok (some (column, value)) ∧
      s.workspace.matrix.prime.clearingCoefficient value = .ok coefficient ∧
      s.workspace.clearBelow ⟨i, column, coefficient⟩ = .ok workspace ∧
      follow s.follower workspace ⟨i, column, coefficient⟩ = .ok follower ∧
      s.kept.keep workspace.matrix i = .ok (kept, matrix) ∧
      s' = ⟨{ workspace with matrix }, follower, kept, s.pivots.push ⟨i, column, coefficient⟩,
        s.dependent, s.pacer⟩ := by
  simp only [visit, bind_eq_ok] at call
  obtain ⟨found, leads, call⟩ := call
  cases found with
  | none =>
    cases call
    exact .inl ⟨leads, rfl⟩
  | some place =>
    obtain ⟨column, value⟩ := place
    simp only [bind_eq_ok] at call
    obtain ⟨coefficient, cleared_by, workspace, cleared, follower, followed, ⟨kept, matrix⟩, moved,
      result⟩ := call
    cases result
    exact .inr ⟨column, value, coefficient, workspace, follower, kept, matrix, leads, cleared_by,
      cleared, followed, moved, rfl⟩

/-- What every visit keeps, the loop keeps. It ends behind the last row that it visited. -/
theorem visitFrom_keeps {Q : Nat → Elimination e τ → Prop}
    (paced : ∀ {i : Nat} {s : Elimination e τ} (pacer : Pacer), Q i s → Q i { s with pacer })
    (step : ∀ {i : Nat} {s s' : Elimination e τ}, Q i s → s.visit follow i = .ok s' → Q (i + 1) s')
    {total remaining i : Nat} {outcome : Outcome (Elimination e τ) ReductionError Unit} (h : Q i s)
    (call : s.visitFrom follow total remaining i = .ok outcome) :
    ∃ reached, reached ≤ i + remaining ∧ Q reached outcome.state := by
  induction remaining generalizing i s with
  | zero =>
    cases call
    exact ⟨i, Nat.le_refl i, h⟩
  | succ remaining ih =>
    rw [visitFrom] at call
    rcases s.pacer.checkpoint_cases i total with ⟨next, passed, -⟩ | ⟨here, -⟩
    · simp only [passed, bind_eq_ok] at call
      obtain ⟨s', visited, later⟩ := call
      obtain ⟨reached, bound, kept⟩ := ih (step (paced next h) visited) later
      exact ⟨reached, by omega, kept⟩
    · simp only [here] at call
      cases call
      exact ⟨i, Nat.le_add_right i _, paced s.pacer h⟩

end Elimination

end RowReduction
