import RowReduction.Elimination
/-!
Bases of quotients. The rows of a matrix are first reduced by a matrix in forward echelon form, and
then eliminated against each other; the rows that are left are a basis of the first row space modulo
its intersection with the second. One report marks the end of the first pass.
-/
namespace RowReduction.RowMatrix

variable [Storage.Memory] {e : Encoding}

def clearByImage (m image : RowMatrix e) (pivot : Pivot) (k : Nat) : Checked (RowMatrix e) := do
  let x ← m.entry k pivot.column
  if x = 0 then return m
  m.addRowOf image k pivot.row (m.prime.product pivot.coefficient x) pivot.column

/-- Clears the leading column of row `r` of the image from every row. -/
def reduceByRow (m image : RowMatrix e) (r : Nat) : Checked (RowMatrix e) := do
  match ← image.leading r with
  | none => return m
  | some (column, value) =>
    let coefficient ← m.prime.clearingCoefficient value
    (List.range m.rows).foldlM (fun m k => m.clearByImage image ⟨r, column, coefficient⟩ k) m

/-- Reduces by the next `remaining` rows of the image from row `r` on, passing a checkpoint before
each. -/
def reduceFrom (image : RowMatrix e) :
    (remaining r : Nat) → RowMatrix e → Pacer →
      Checked (Outcome (RowMatrix e × Pacer) ReductionError Unit)
  | 0, _, m, pacer => return ⟨(m, pacer), .ok ()⟩
  | remaining + 1, r, m, pacer => do
    let ⟨pacer, passed⟩ := pacer.checkpoint r image.rows
    match passed with
    | .error stopped => return ⟨(m, pacer), .error stopped⟩
    | .ok () => reduceFrom image remaining (r + 1) (← m.reduceByRow image r) pacer

/-- Reduces the rows of `m` to a basis of their span modulo the row space of `image`, whose later
rows must vanish in the leading column of each row. -/
def quotientBasis (m image : RowMatrix e) (pacer : Pacer) :
    Checked (Outcome (RowMatrix e × Pacer) ReductionError Unit) := do
  require (image.prime = m.prime) .quotientOverDifferentPrimes
  match checkWidths m.columns image.columns with
  | .error failure => return ⟨(m, pacer), .error (.storage failure)⟩
  | .ok () =>
    let ⟨(m, pacer), reduced⟩ ← reduceFrom image image.rows 0 m pacer
    match reduced with
    | .error stopped => return ⟨(m, pacer), .error stopped⟩
    | .ok () =>
      let start := Elimination.start ⟨m, none, none⟩ () pacer.endPass
      let ⟨s, eliminated⟩ ← start.run fun _ _ _ => return ()
      return ⟨(s.workspace.matrix, s.pacer), eliminated⟩

end RowReduction.RowMatrix
