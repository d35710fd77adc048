import RowReduction.Splitting
/-!
Preimages of rows. Every pivot column of a matrix is cleared from the rows of a second one, and the
multiples of initial rows that were subtracted are recorded. In the end the second matrix holds
residues, and each of its old rows is the recorded combination plus its residue. The pivots come
from an elimination that runs at the same time, or from a basis that an earlier one left.
-/
namespace RowReduction

/-- Rows that are being reduced, and the combinations subtracted from them so far. -/
structure Reduction (e : Encoding) where
  residues : RowMatrix e
  subtracted : RowMatrix e

namespace Reduction

variable {e : Encoding}

def reduceRow (s : Reduction e) (image combination : RowMatrix e) (pivot : Pivot) (r : Nat) :
    Checked (Reduction e) := do
  let ⟨residues, subtracted⟩ := s
  let p := residues.prime
  let x ← residues.entry r pivot.column
  if x = 0 then return ⟨residues, subtracted⟩
  let c := p.product pivot.coefficient x
  let residues ← residues.addRowOf image r pivot.row c pivot.column
  let subtracted ← subtracted.addRowOf combination r pivot.row (← p.neg c) 0
  return ⟨residues, subtracted⟩

def reduceRows (s : Reduction e) (image combination : RowMatrix e) (pivot : Pivot) :
    Checked (Reduction e) :=
  (List.range s.residues.rows).foldlM (fun s r => s.reduceRow image combination pivot r) s

def follow : Follow e (Reduction e) := fun s w pivot =>
  match w.combination with
  | some combination => s.reduceRows w.matrix combination pivot
  | none => return s

/-- Replays the next pivots of a basis, of which pivot `k` is the first, passing a checkpoint before
each. -/
def replay (b : PivotBasis (RowMatrix e)) (k : Nat) (s : Reduction e) (pacer : Pacer) :
    List Pivot → Checked (Outcome (Reduction e × Pacer) ReductionError Unit)
  | [] => return ⟨(s, pacer), .ok ()⟩
  | pivot :: rest => do
    let ⟨pacer, passed⟩ := pacer.checkpoint k b.rank
    match passed with
    | .error stopped => return ⟨(s, pacer), .error stopped⟩
    | .ok () => replay b (k + 1) (← s.reduceRows b.image b.combinations pivot) pacer rest

end Reduction

structure PreimageState (e : Encoding) where
  matrix : RowMatrix e
  residues : RowMatrix e
  pacer : Pacer

namespace RowMatrix

variable [Storage.Memory] {e : Encoding}

/-- Eliminates `m` and reduces `l` along with it. The answer has a row for each row of `l`, which
tells the combination of initial rows of `m` that was subtracted from it. -/
def preimages (m l : RowMatrix e) (pacer : Pacer) :
    Checked (Outcome (PreimageState e) ReductionError (RowMatrix e)) := do
  require (m.prime = l.prime) .preimagesOverDifferentPrimes
  let unchanged : PreimageState e := ⟨m, l, pacer⟩
  let prepared : Build (RowMatrix e × RowMatrix e) := do
    liftM (checkWidths m.columns l.columns)
    let subtracted ← new l.prime l.rows m.rows
    let combination ← identity l.prime m.rows
    return (subtracted, combination)
  match ← prepared.run with
  | .error failure => return ⟨unchanged, .error (.storage failure)⟩
  | .ok (subtracted, combination) =>
    let start := Elimination.start ⟨m, some combination, none⟩ ⟨l, subtracted⟩ pacer
    let ⟨s, eliminated⟩ ← start.run Reduction.follow
    return ⟨⟨s.workspace.matrix, s.follower.residues, s.pacer⟩,
      eliminated.map fun () => s.follower.subtracted⟩

end RowMatrix

namespace PivotBasis

variable [Storage.Memory] {e : Encoding}

/-- Reduces `l` by the pivots of a basis, with the same answer as the elimination of the matrix that
the basis was computed from. -/
def preimages (b : PivotBasis (RowMatrix e)) (l : RowMatrix e) (pacer : Pacer) :
    Checked (Outcome (RowMatrix e × Pacer) ReductionError (RowMatrix e)) := do
  require (b.prime = l.prime) .replayOverDifferentPrimes
  let prepared : Build (RowMatrix e) := do
    liftM (checkWidths b.columns l.columns)
    RowMatrix.new l.prime l.rows b.sourceRows
  match ← prepared.run with
  | .error failure => return ⟨(l, pacer), .error (.storage failure)⟩
  | .ok subtracted =>
    let ⟨(s, pacer), replayed⟩ ← Reduction.replay b 0 ⟨l, subtracted⟩ pacer b.pivots
    return ⟨(s.residues, pacer), replayed.map fun () => s.subtracted⟩

end PivotBasis

end RowReduction
