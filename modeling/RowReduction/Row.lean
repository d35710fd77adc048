import RowReduction.Encoding
import RowReduction.Row.Batches
import RowReduction.Row.Bits
import RowReduction.Row.Bytes
/-!
A padded row of any encoding, as the cells that hold it. Each encoding combines rows and finds their
first nonzero entry in a way of its own.
-/
namespace RowReduction

abbrev Row (e : Encoding) := Array e.Cell

namespace Row

/-- Adds `coefficient`, which is reduced and not zero, times the source row to the target row. The
source row is zero before column `start`, and an encoding skips as much of that as it can. -/
def accumulate (e : Encoding) (p : SmallPrime) (target source : Row e)
    (coefficient start columns : Nat) : Row e :=
  match e, target, source with
  | .generic, target, source => Bytes.accumulate p target source coefficient start columns
  | .batched, target, source => Batches.accumulate p target source coefficient start columns
  | .packed, target, source => Bits.add target source start

def leading (e : Encoding) (row : Row e) (columns : Nat) : Option (Nat × Nat) :=
  match e, row with
  | .generic, row => Bytes.leading row columns
  | .batched, row => Batches.leading row
  | .packed, row => Bits.leading row

def entry (e : Encoding) (row : Row e) (j : Nat) : Nat :=
  e.readLane (row.getD (j / e.lanes) e.zeroCell) (j % e.lanes)

/-- The entries of the first `columns` columns. Packed rows are read a word at a time. -/
def entries (e : Encoding) (row : Row e) (columns : Nat) : List Nat :=
  match e, row with
  | .packed, row => Bits.entries row columns
  | .generic, row => (List.range columns).map (entry .generic row)
  | .batched, row => (List.range columns).map (entry .batched row)

end Row

end RowReduction
