import RowReduction.RowMatrix.Construction
import RowReduction.Pacing
/-!
Forward elimination. The rows of a matrix are visited in order; the first nonzero entry of a row is
its pivot, and the pivot's column is cleared from every later row. Rows that are zero when they are
visited depend on earlier ones, the others move to the front. A change-of-basis matrix can take part
in every row operation, and a dual one in the inverse transpose of each.
-/
namespace RowReduction

/-- A row with its first nonzero column. The coefficient is minus the inverse of the entry there, so
an entry `x` below it is cleared by adding `coefficient * x` times the pivot row. -/
structure Pivot where
  row : Nat
  column : Nat
  coefficient : Nat
  deriving DecidableEq, Repr

/-- Counts the rows that were kept of a matrix that is being read. They stand at its front, and row
`next` is the next to be overwritten. A row that lies before it has been overwritten and cannot be
kept any more. -/
structure KeptRows where
  next : Nat
  deriving DecidableEq, Repr

namespace KeptRows

variable [Storage.Memory] {e : Encoding}

def start : KeptRows := ⟨0⟩

def keep (c : KeptRows) (m : RowMatrix e) (row : Nat) : Checked (KeptRows × RowMatrix e) := do
  require (c.next ≤ row) (.keptRowBehind row c.next)
  let moved ← if c.next = row then pure m else m.copyRow c.next row
  return (⟨c.next + 1⟩, moved)

def finish (c : KeptRows) (m : RowMatrix e) : Outcome (RowMatrix e) StorageError Unit :=
  m.resize c.next

end KeptRows

structure Workspace (e : Encoding) where
  matrix : RowMatrix e
  combination : Option (RowMatrix e)
  dual : Option (RowMatrix e)

namespace Workspace

variable {e : Encoding}

def clearEntry (w : Workspace e) (pivot : Pivot) (j : Nat) : Checked (Workspace e) := do
  let ⟨matrix, combination, dual⟩ := w
  let p := matrix.prime
  let x ← matrix.entry j pivot.column
  if x = 0 then return ⟨matrix, combination, dual⟩
  let c := p.product pivot.coefficient x
  let matrix ← matrix.addRow j pivot.row c pivot.column
  let combination ← combination.mapM fun u => u.addRow j pivot.row c 0
  let dual ← dual.mapM fun d => do d.addRow pivot.row j (← p.neg c) 0
  return ⟨matrix, combination, dual⟩

def clearBelow (w : Workspace e) (pivot : Pivot) : Checked (Workspace e) :=
  (List.range' (pivot.row + 1) (w.matrix.rows - (pivot.row + 1))).foldlM
    (fun w j => w.clearEntry pivot j) w

end Workspace

structure Elimination (e : Encoding) (τ : Type) where
  workspace : Workspace e
  follower : τ
  kept : KeptRows
  pivots : Array Pivot
  dependent : Array Nat
  pacer : Pacer

/-- What a follower does when a pivot's column has been cleared. Rows still have their old numbers,
and the pivot row of the matrix and of the change of basis is final. -/
abbrev Follow (e : Encoding) (τ : Type) := τ → Workspace e → Pivot → Checked τ

namespace Elimination

variable [Storage.Memory] {e : Encoding} {τ : Type}

def start (workspace : Workspace e) (follower : τ) (pacer : Pacer) : Elimination e τ :=
  ⟨workspace, follower, .start, #[], #[], pacer⟩

def visit (follow : Follow e τ) (s : Elimination e τ) (i : Nat) : Checked (Elimination e τ) := do
  match ← s.workspace.matrix.leading i with
  | none => return { s with dependent := s.dependent.push i }
  | some (column, value) =>
    let coefficient ← s.workspace.matrix.prime.clearingCoefficient value
    let pivot : Pivot := ⟨i, column, coefficient⟩
    let workspace ← s.workspace.clearBelow pivot
    let follower ← follow s.follower workspace pivot
    let (kept, matrix) ← s.kept.keep workspace.matrix i
    return { s with
      workspace := { workspace with matrix }
      follower
      kept
      pivots := s.pivots.push pivot }

/-- Visits the next `remaining` rows from row `i` on, passing a checkpoint before each. -/
def visitFrom (follow : Follow e τ) (total : Nat) :
    (remaining i : Nat) → Elimination e τ → Checked (Outcome (Elimination e τ) ReductionError Unit)
  | 0, _, s => return ⟨s, .ok ()⟩
  | remaining + 1, i, s => do
    let ⟨pacer, passed⟩ := s.pacer.checkpoint i total
    let s := { s with pacer }
    match passed with
    | .error stopped => return ⟨s, .error stopped⟩
    | .ok () => visitFrom follow total remaining (i + 1) (← s.visit follow i)

def finish (s : Elimination e τ) : Outcome (Elimination e τ) ReductionError Unit :=
  let ⟨matrix, dropped⟩ := s.kept.finish s.workspace.matrix
  ⟨{ s with workspace := { s.workspace with matrix } }, dropped.mapError .storage⟩

/-- Eliminates the matrix of the workspace and leaves only the rows that have a pivot. -/
def run (follow : Follow e τ) (s : Elimination e τ) :
    Checked (Outcome (Elimination e τ) ReductionError Unit) := do
  let rows := s.workspace.matrix.rows
  let visited ← s.visitFrom follow rows rows 0
  match visited.answer with
  | .error stopped => return ⟨visited.state, .error stopped⟩
  | .ok () => return visited.state.finish

end Elimination

end RowReduction
