import RowReduction.Row
/-!
Matrices over a small prime, stored row by row in one buffer. Row `i` takes the cells from
`i * rowCells` up to `(i + 1) * rowCells`; what lies beyond the last column is padding and zero.
Access by position is checked: `entry` and `putEntry` hold the caller to the range, `get` and `set`
report a position outside the matrix as an error.
-/
namespace RowReduction

structure RowMatrix (e : Encoding) where
  prime : SmallPrime
  rows : Nat
  columns : Nat
  cells : Array e.Cell
  deriving DecidableEq

namespace RowMatrix

variable [Storage.Memory] {e : Encoding}

def rowCells (m : RowMatrix e) : Nat := e.rowCells m.columns

/-- The number of entries that a padded row has room for, which has to be a 64-bit size. -/
def stride (m : RowMatrix e) : Checked Nat := do
  let entries := e.rowEntries m.columns
  require (entries ≤ Storage.maxSize) (.strideTooLarge entries)
  return entries

/-- Stops unless a matrix of this size over `p` can be stored. -/
def checkNew (e : Encoding) (p : SmallPrime) (rows columns : Nat) : Build Unit := do
  require (e.canStore p) (.packedNeedsTwo p.val)
  liftM (checkAllocation e.cellBytes (Storage.length rows (e.rowCells columns)))

/-- The zero matrix over a prime that the encoding has to support. -/
def new (p : SmallPrime) (rows columns : Nat) : Build (RowMatrix e) := do
  checkNew e p rows columns
  return ⟨p, rows, columns, Array.replicate (Storage.length rows (e.rowCells columns)) e.zeroCell⟩

def row (m : RowMatrix e) (i : Nat) : Row e :=
  m.cells.extract (i * m.rowCells) (i * m.rowCells + m.rowCells)

def replaceRow (m : RowMatrix e) (i : Nat) (cells : Row e) : RowMatrix e :=
  { m with
    cells :=
      overwriteCells m.cells (i * m.rowCells) m.rowCells fun k => cells.getD k e.zeroCell }

def read (m : RowMatrix e) (i j : Nat) : Nat :=
  e.readLane (m.cells.getD (i * m.rowCells + j / e.lanes) e.zeroCell) (j % e.lanes)

/-- Overwrites the entry in row `i` and column `j` by a value, reduced modulo the prime. -/
def write (m : RowMatrix e) (i j value : Nat) : RowMatrix e :=
  let reduced := m.prime.reduce value
  let position := i * m.rowCells + j / e.lanes
  { m with cells := m.cells.modify position fun c => e.writeLane c (j % e.lanes) reduced }

def requireColumn (m : RowMatrix e) (j : Nat) : Checked Unit :=
  require (j < m.columns) (.columnOutOfRange j m.columns)

def requireRow (m : RowMatrix e) (i : Nat) : Checked Unit :=
  require (i < m.rows) (.rowOutOfRange i m.rows)

def entry (m : RowMatrix e) (i j : Nat) : Checked Nat := do
  m.requireColumn j
  m.requireRow i
  return m.read i j

def putEntry (m : RowMatrix e) (i j value : Nat) : Checked (RowMatrix e) := do
  m.requireColumn j
  m.requireRow i
  return m.write i j value

def addEntry (m : RowMatrix e) (i j value : Nat) : Checked (RowMatrix e) := do
  let old ← m.entry i j
  m.putEntry i j (m.prime.sum old (m.prime.reduce value))

def outOfBounds (m : RowMatrix e) (i j : Nat) : StorageError :=
  .outOfBounds i j m.rows m.columns

def get (m : RowMatrix e) (i j : Nat) : Except StorageError Nat :=
  if i < m.rows ∧ j < m.columns then .ok (m.read i j) else .error (m.outOfBounds i j)

def set (m : RowMatrix e) (i j value : Nat) : Outcome (RowMatrix e) StorageError Unit :=
  if i < m.rows ∧ j < m.columns then ⟨m.write i j value, .ok ()⟩
  else ⟨m, .error (m.outOfBounds i j)⟩

def clear (m : RowMatrix e) : RowMatrix e :=
  { m with cells := Array.replicate m.cells.size e.zeroCell }

/-- The column and value of the first nonzero entry of row `i`, if there is one. -/
def leading (m : RowMatrix e) (i : Nat) : Checked (Option (Nat × Nat)) := do
  m.requireRow i
  return Row.leading e (m.row i) m.columns

/-- Changes the number of rows. The rows that stay keep their entries and new rows are zero. -/
def resize (m : RowMatrix e) (rows : Nat) : Outcome (RowMatrix e) StorageError Unit :=
  match resizeCells e.zeroCell e.cellBytes m.cells (Storage.length rows m.rowCells) with
  | .ok cells => ⟨{ m with rows, cells }, .ok ()⟩
  | .error failure => ⟨m, .error failure⟩

def rowEntries (m : RowMatrix e) (i : Nat) : List Nat := Row.entries e (m.row i) m.columns

def toLists (m : RowMatrix e) : List (List Nat) := (List.range m.rows).map m.rowEntries

def isZero (m : RowMatrix e) : Bool :=
  (List.range m.rows).all fun i => (Row.leading e (m.row i) m.columns).isNone

def isReduced (m : RowMatrix e) : Bool :=
  (List.range (m.rows * m.columns)).all fun k =>
    m.read (k / m.columns) (k % m.columns) < m.prime.val

end RowMatrix

end RowReduction
