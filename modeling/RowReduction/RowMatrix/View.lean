import RowReduction.ResidueVector
import RowReduction.RowMatrix.Basic
/-!
A view of one row of a matrix, and the text of a matrix, which shows one row on each line.
-/
namespace RowReduction

structure NumberedRow (e : Encoding) where
  matrix : RowMatrix e
  index : Nat
  index_lt : index < matrix.rows

namespace NumberedRow

variable {e : Encoding}

def prime (v : NumberedRow e) : SmallPrime := v.matrix.prime

def length (v : NumberedRow e) : Nat := v.matrix.columns

def isEmpty (v : NumberedRow e) : Bool := v.length == 0

def entry (v : NumberedRow e) (j : Nat) : Checked Nat := v.matrix.entry v.index j

def entries (v : NumberedRow e) : List Nat := (List.range v.length).map (v.matrix.read v.index)

def isZero (v : NumberedRow e) : Bool :=
  (Row.leading e (v.matrix.row v.index) v.length).isNone

def toVector (v : NumberedRow e) : ResidueVector := .ofList v.prime v.entries

instance : ToString (NumberedRow e) := ⟨fun v => ResidueVector.listText v.entries⟩

end NumberedRow

namespace RowMatrix

variable {e : Encoding}

def view (m : RowMatrix e) (i : Nat) : Checked (NumberedRow e) :=
  if h : i < m.rows then .ok ⟨m, i, h⟩ else .error (.viewOutOfRange i m.rows)

def text (m : RowMatrix e) : String :=
  String.join ((List.range m.rows).map fun i =>
    ResidueVector.listText ((List.range m.columns).map (m.read i)) ++ "\n")

/-- The bits of a row of a packed matrix, read a word at a time. -/
def rowBits (m : RowMatrix .packed) (i : Nat) : Checked (List Nat) := do
  m.requireRow i
  return Row.Bits.entries (m.row i) m.columns

end RowMatrix

end RowReduction
