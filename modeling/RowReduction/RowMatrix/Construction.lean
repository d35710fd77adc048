import RowReduction.RowMatrix.RowOperations
/-!
Matrices built from given entries: identities, matrices from lists of rows, and copies in another
encoding. All of them allocate a zero matrix first and then write its entries.
-/
namespace RowReduction.RowMatrix

variable [Storage.Memory] {e : Encoding}

def fill (m : RowMatrix e) (entries : Nat → Nat → Nat) : RowMatrix e :=
  (m.rows * m.columns).fold
    (fun k _ filled =>
      filled.write (k / m.columns) (k % m.columns) (entries (k / m.columns) (k % m.columns))) m

/-- Writes the entries that are not zero and leaves the others as they are. -/
def fillNonzero (m : RowMatrix e) (entries : Nat → Nat → Nat) : RowMatrix e :=
  (m.rows * m.columns).fold
    (fun k _ filled =>
      let x := entries (k / m.columns) (k % m.columns)
      if x = 0 then filled else filled.write (k / m.columns) (k % m.columns) x) m

def toIdentity (m : RowMatrix e) : Checked (RowMatrix e) := do
  require (m.rows = m.columns) .notSquare
  return m.rows.fold (fun i _ unit => unit.write i i 1) m.clear

def identity (p : SmallPrime) (n : Nat) : Build (RowMatrix e) := do
  let m : RowMatrix e ← new p n n
  liftM m.toIdentity

/-- The matrix with the given rows, reduced modulo the prime. The first row of another width than
`columns` is reported. -/
def ofLists (p : SmallPrime) (rows : List (List Nat)) (columns : Nat) : Build (RowMatrix e) := do
  let m : RowMatrix e ← new p rows.length columns
  liftM (rows.forM fun row => checkWidths columns row.length)
  let table := (rows.map List.toArray).toArray
  return m.fill fun i j => (table.getD i #[]).getD j 0

def recode (f : Encoding) (m : RowMatrix e) : Build (RowMatrix f) := do
  require (f.canStore m.prime) (.cannotStore m.prime.val f.name)
  let copy : RowMatrix f ← new m.prime m.rows m.columns
  return copy.fillNonzero m.read

/-- A copy in the same encoding, which can be refused storage. -/
def copy (m : RowMatrix e) : Build (RowMatrix e) := m.recode e

end RowReduction.RowMatrix
