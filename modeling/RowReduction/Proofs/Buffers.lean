import Mathlib
import RowReduction.Proofs.Outcomes

/-!
The buffers that a reduction works on. The rows of a well-formed matrix lie in its buffer, so all
that an answered call takes of its matrices is there. Every step of a loop leaves well-formed
matrices, whichever pivots it is given, so this holds all the way through a reduction.
-/
namespace RowReduction

variable [Storage.Memory] {e : Encoding}

namespace RowMatrix

variable {m m' : RowMatrix e} {i j : Nat}

/-- The cells of row `i` lie in the buffer. -/
def HoldsRow (m : RowMatrix e) (i : Nat) : Prop := i * m.rowCells + m.rowCells ≤ m.cells.size

/-- The cell with the entry in row `i` and column `j` lies in the buffer. -/
def HoldsEntry (m : RowMatrix e) (i j : Nat) : Prop :=
  i * m.rowCells + j / e.lanes < m.cells.size

/-- What answered calls take of a matrix, and of another one that is well-formed, lies in the
buffers. A row that is not added is not looked at. -/
structure InBuffer (m : RowMatrix e) : Prop where
  entry {i j value : Nat} : m.entry i j = .ok value → m.HoldsEntry i j
  putEntry {i j value : Nat} {m' : RowMatrix e} : m.putEntry i j value = .ok m' → m.HoldsEntry i j
  leading {i : Nat} {found : Option (Nat × Nat)} : m.leading i = .ok found → m.HoldsRow i
  addRow {t s c start : Nat} {m' : RowMatrix e} : m.prime.reduce c ≠ 0 →
    m.addRow t s c start = .ok m' → m.HoldsRow t ∧ m.HoldsRow s
  addRowOf {other : RowMatrix e} {t s c start : Nat} {m' : RowMatrix e} : other.WellFormed →
    m.prime.reduce c ≠ 0 → m.addRowOf other t s c start = .ok m' → m.HoldsRow t ∧ other.HoldsRow s
  copyRow {t s : Nat} {m' : RowMatrix e} : m.copyRow t s = .ok m' → m.HoldsRow t ∧ m.HoldsRow s
  copyRowOf {other : RowMatrix e} {t s : Nat} {m' : RowMatrix e} : other.WellFormed →
    m.copyRowOf other t s = .ok m' → m.HoldsRow t ∧ other.HoldsRow s

namespace WellFormed

theorem holdsRow (wf : m.WellFormed) (hi : i < m.rows) : m.HoldsRow i := by
  have stored := wf.row_stored hi
  rwa [Nat.succ_mul] at stored

theorem holdsEntry (wf : m.WellFormed) (hi : i < m.rows) (hj : j < m.columns) :
    m.HoldsEntry i j := by
  have row := wf.holdsRow hi
  have column := wf.column_stored hi hj
  unfold HoldsRow HoldsEntry at *
  omega

theorem inBuffer (wf : m.WellFormed) : m.InBuffer where
  entry call := by
    obtain ⟨column, row, -⟩ := entry_eq_ok.mp call
    exact wf.holdsEntry row column
  putEntry call := by
    obtain ⟨column, row, -⟩ := putEntry_eq_ok.mp call
    exact wf.holdsEntry row column
  leading call := wf.holdsRow (leading_eq_ok.mp call).1
  addRow remains call := by
    obtain ⟨vanishes, -⟩ | ⟨-, -, target, source, -⟩ := addRow_cases call
    · exact absurd vanishes remains
    · exact ⟨wf.holdsRow target, wf.holdsRow source⟩
  addRowOf wf' remains call := by
    obtain ⟨vanishes, -⟩ | ⟨-, -, target, source, -⟩ := addRowOf_cases call
    · exact absurd vanishes remains
    · exact ⟨wf.holdsRow target, wf'.holdsRow source⟩
  copyRow call := by
    obtain ⟨target, source, -⟩ := copyRow_eq_ok.mp call
    exact ⟨wf.holdsRow target, wf.holdsRow source⟩
  copyRowOf wf' call := by
    obtain ⟨-, target, source, -⟩ := copyRowOf_eq_ok.mp call
    exact ⟨wf.holdsRow target, wf'.holdsRow source⟩

/-- One row of an image keeps the matrix well-formed, whatever its leading entry. -/
theorem of_reduceByRow {image : RowMatrix e} (wf : m.WellFormed) (image_wf : image.WellFormed)
    {r : Nat} (call : m.reduceByRow image r = .ok m') : m'.WellFormed := by
  refine reduceByRow_keeps ?_ wf call
  intro m m' t s c start wf added
  exact (wf.shaped.of_addRowOf image_wf added).wellFormed

end WellFormed

end RowMatrix

/-- All matrices of a workspace are well-formed. -/
structure Workspace.WellFormed (w : Workspace e) : Prop where
  matrix : w.matrix.WellFormed
  combination : ∀ u ∈ w.combination, u.WellFormed
  dual : ∀ d ∈ w.dual, d.WellFormed

namespace Workspace.WellFormed

variable {w w' : Workspace e} {pivot : Pivot}

theorem of_mapM {o o' : Option (RowMatrix e)} {change : RowMatrix e → Checked (RowMatrix e)}
    (keeps : ∀ {u u' : RowMatrix e}, u.WellFormed → change u = .ok u' → u'.WellFormed)
    (wf : ∀ u ∈ o, u.WellFormed) (call : o.mapM change = .ok o') : ∀ u ∈ o', u.WellFormed := by
  cases o with
  | none =>
    cases call
    simp
  | some u =>
    obtain ⟨u', changed, result⟩ := bind_eq_ok.mp call
    cases result
    simpa using keeps (wf u rfl) changed

theorem of_clearEntry (wf : w.WellFormed) {j : Nat} (call : w.clearEntry pivot j = .ok w') :
    w'.WellFormed := by
  obtain ⟨matrix, combination, dual⟩ := w
  simp only [clearEntry, bind_eq_ok] at call
  obtain ⟨x, -, call⟩ := call
  split at call
  · cases call
    exact wf
  · simp only [bind_eq_ok] at call
    obtain ⟨matrix', added, combination', recorded, dual', followed, result⟩ := call
    cases result
    refine ⟨(wf.matrix.shaped.of_addRow added).wellFormed, ?_, ?_⟩
    · exact of_mapM (fun wf step => (wf.shaped.of_addRow step).wellFormed) wf.combination recorded
    · refine of_mapM (fun wf step => ?_) wf.dual followed
      obtain ⟨c, -, step⟩ := bind_eq_ok.mp step
      exact (wf.shaped.of_addRow step).wellFormed

theorem of_clearBelow (wf : w.WellFormed) (call : w.clearBelow pivot = .ok w') : w'.WellFormed :=
  foldlM_keeps (fun _ _ _ wf step => of_clearEntry wf step) wf call

end Workspace.WellFormed

theorem KeptRows.wellFormed_of_keep {c c' : KeptRows} {m m' : RowMatrix e} {row : Nat}
    (wf : m.WellFormed) (call : c.keep m row = .ok (c', m')) : m'.WellFormed := by
  obtain ⟨-, ⟨-, rfl⟩ | ⟨-, copied⟩⟩ := keep_cases call
  · exact wf
  · exact (wf.shaped.of_copyRow copied).wellFormed

/-- Rows that are reduced along with an elimination stay well-formed. -/
theorem Reduction.WellFormed.of_follow {s s' : Reduction e} {w : Workspace e} {pivot : Pivot}
    (wf : s.WellFormed) (workspace : w.WellFormed) (call : follow s w pivot = .ok s') :
    s'.WellFormed := by
  obtain ⟨matrix, combination, dual⟩ := w
  cases combination with
  | none =>
    cases call
    exact wf
  | some u =>
    exact PivotBasis.reduceRows_wellFormed (b := ⟨matrix, u, []⟩) workspace.matrix
      (workspace.combination u rfl) wf call

namespace Elimination

variable {τ : Type} {follow : Follow e τ} {P : τ → Prop} {s : Elimination e τ}

/-- The matrices of an elimination are well-formed, and `P` tells what its follower keeps. -/
structure WellFormed (P : τ → Prop) (s : Elimination e τ) : Prop where
  workspace : s.workspace.WellFormed
  follower : P s.follower

namespace WellFormed

variable (keeps : ∀ {f f' : τ} {w : Workspace e} {pivot : Pivot}, P f → w.WellFormed →
  follow f w pivot = .ok f' → P f')

include keeps in
theorem of_visit (wf : s.WellFormed P) {i : Nat} {s' : Elimination e τ}
    (call : s.visit follow i = .ok s') : s'.WellFormed P := by
  obtain ⟨-, rfl⟩ | ⟨_, _, _, _, _, _, _, -, -, cleared, followed, moved, rfl⟩ := visit_cases call
  · exact ⟨wf.workspace, wf.follower⟩
  · have below := wf.workspace.of_clearBelow cleared
    exact ⟨⟨KeptRows.wellFormed_of_keep below.matrix moved, below.combination, below.dual⟩,
      keeps wf.follower below followed⟩

include keeps in
/-- After any number of rows the matrices are well-formed. -/
theorem of_visitFrom (wf : s.WellFormed P) {total remaining i : Nat}
    {outcome : Outcome (Elimination e τ) ReductionError Unit}
    (call : s.visitFrom follow total remaining i = .ok outcome) : outcome.state.WellFormed P := by
  obtain ⟨_, -, kept⟩ := visitFrom_keeps (fun _ wf => ⟨wf.workspace, wf.follower⟩)
    (fun wf visited => of_visit keeps wf visited) wf call
  exact kept

end WellFormed

end Elimination

/-- The first pass of a quotient leaves a well-formed matrix after any number of rows. -/
theorem RowMatrix.WellFormed.of_reduceFrom {m image : RowMatrix e} (wf : m.WellFormed)
    (image_wf : image.WellFormed) {pacer : Pacer} {remaining r : Nat}
    {outcome : Outcome (RowMatrix e × Pacer) ReductionError Unit}
    (call : reduceFrom image remaining r m pacer = .ok outcome) : outcome.state.1.WellFormed := by
  induction remaining generalizing m r pacer with
  | zero =>
    cases call
    exact wf
  | succ remaining ih =>
    rw [reduceFrom] at call
    rcases pacer.checkpoint_cases r image.rows with ⟨next, passed, -⟩ | ⟨here, -⟩
    · simp only [passed, bind_eq_ok] at call
      obtain ⟨reduced, step, later⟩ := call
      exact ih (wf.of_reduceByRow image_wf step) later
    · simp only [here] at call
      cases call
      exact wf

/-- Every loop of a reduction has well-formed matrices after any number of its steps, and what an
answered call takes of such a matrix lies in its buffer. -/
structure StaysInBuffers (pacer : Pacer) : Prop where
  eliminations {e : Encoding} {τ : Type} {follow : Follow e τ} {w : Workspace e} {f : τ}
    {total k : Nat} {outcome : Outcome (Elimination e τ) ReductionError Unit} :
    w.WellFormed → (Elimination.start w f pacer).visitFrom follow total k 0 = .ok outcome →
      outcome.state.workspace.WellFormed
  followers {e : Encoding} {w : Workspace e} {s : Reduction e} {total k : Nat}
    {outcome : Outcome (Elimination e (Reduction e)) ReductionError Unit} :
    w.WellFormed → s.WellFormed →
      (Elimination.start w s pacer).visitFrom Reduction.follow total k 0 = .ok outcome →
        outcome.state.follower.WellFormed
  replays {e : Encoding} {b : PivotBasis (RowMatrix e)} {s : Reduction e} {pivots : List Pivot}
    {outcome : Outcome (Reduction e × Pacer) ReductionError Unit} :
    b.image.WellFormed → b.combinations.WellFormed → s.WellFormed →
      Reduction.replay b 0 s pacer pivots = .ok outcome → outcome.state.1.WellFormed
  firstPasses {e : Encoding} {m image : RowMatrix e} {k : Nat}
    {outcome : Outcome (RowMatrix e × Pacer) ReductionError Unit} :
    m.WellFormed → image.WellFormed → RowMatrix.reduceFrom image k 0 m pacer = .ok outcome →
      outcome.state.1.WellFormed
  calls {e : Encoding} {m : RowMatrix e} : m.WellFormed → m.InBuffer

theorem staysInBuffers (pacer : Pacer) : StaysInBuffers pacer where
  eliminations wf call :=
    (Elimination.WellFormed.of_visitFrom (P := fun _ => True) (fun _ _ _ => trivial)
      ⟨wf, trivial⟩ call).workspace
  followers wf wf' call :=
    (Elimination.WellFormed.of_visitFrom (P := Reduction.WellFormed)
      (fun reduction workspace step => reduction.of_follow workspace step) ⟨wf, wf'⟩ call).follower
  replays image combinations wf call := PivotBasis.replay_wellFormed image combinations wf call
  firstPasses wf image call := wf.of_reduceFrom image call
  calls wf := wf.inBuffer

end RowReduction
