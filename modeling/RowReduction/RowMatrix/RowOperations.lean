import RowReduction.RowMatrix.Basic
/-!
Sums and copies of whole rows, from a row of the same matrix or of a second one. A sum has a start
column: the source row is zero before it, as the caller knows, and an encoding may skip that part.
Every operation first holds its caller to its rules, and then changes one row.
-/
namespace RowReduction.RowMatrix

variable [Storage.Memory] {e : Encoding}

def combine (m : RowMatrix e) (target : Nat) (source : Row e) (coefficient start : Nat) :
    RowMatrix e :=
  m.replaceRow target
    (Row.accumulate e m.prime (m.row target) source coefficient start m.columns)

def addRow (m : RowMatrix e) (target source coefficient start : Nat) : Checked (RowMatrix e) := do
  let c := m.prime.reduce coefficient
  if c = 0 then return m
  require (target != source) .sameRow
  require (target < m.rows && source < m.rows) .rowPairOutOfRange
  return m.combine target (m.row source) c start

def requireAlike (m other : RowMatrix e) : Checked Unit := do
  require (m.prime = other.prime) .differentPrimes
  require (m.columns = other.columns) .differentWidths

/-- Adds `coefficient` times row `source` of `other` to row `target`, from column `start` on. The
batched encoding looks at the other matrix only when there is something to add. -/
def addRowOf (m other : RowMatrix e) (target source coefficient start : Nat) :
    Checked (RowMatrix e) := do
  let c := m.prime.reduce coefficient
  if e ≠ .batched ∨ c ≠ 0 then m.requireAlike other
  if c = 0 then return m
  m.requireRow target
  other.requireRow source
  return m.combine target (other.row source) c start

def copyRowOf (m other : RowMatrix e) (target source : Nat) : Checked (RowMatrix e) := do
  m.requireAlike other
  m.requireRow target
  other.requireRow source
  return m.replaceRow target (other.row source)

def copyRow (m : RowMatrix e) (target source : Nat) : Checked (RowMatrix e) := do
  require (target < m.rows && source < m.rows) .rowPairOutOfRange
  return m.replaceRow target (m.row source)

/-- Moves the rows with the given numbers to the positions from `position` on. `last` is the number
moved before, which the next one has to exceed. -/
def moveRows (m : RowMatrix e) (position : Nat) (last : Option Nat) :
    List Nat → Checked (RowMatrix e)
  | [] => return m
  | old :: rest => do
    require (position ≤ old && old < m.rows) .keptRowOutOfRange
    require (last.all (· < old)) .keptRowsNotIncreasing
    let moved ← if position = old then pure m else m.copyRow position old
    moved.moveRows (position + 1) (some old) rest

def keepRows (m : RowMatrix e) (keep : List Nat) :
    Checked (Outcome (RowMatrix e) StorageError Unit) := do
  let moved ← m.moveRows 0 none keep
  return moved.resize keep.length

def addRows (m other : RowMatrix e) (coefficient : Nat) : Checked (RowMatrix e) :=
  (List.range m.rows).foldlM (fun sum i => sum.addRowOf other i i coefficient 0) m

/-- Adds `coefficient` times `other`, which must have the same shape. -/
def add (m other : RowMatrix e) (coefficient : Nat) :
    Checked (Outcome (RowMatrix e) StorageError Unit) := do
  require (m.prime = other.prime) .differentPrimes
  match checkWidths m.columns other.columns, checkWidths m.rows other.rows with
  | .error failure, _ => return ⟨m, .error failure⟩
  | .ok (), .error failure => return ⟨m, .error failure⟩
  | .ok (), .ok () =>
    let c := m.prime.reduce coefficient
    if c = 0 then return ⟨m, .ok ()⟩
    return ⟨← m.addRows other c, .ok ()⟩

end RowReduction.RowMatrix
