/-!
Rows of the packed encoding: entry `j` is bit `j % 64` of word `j / 64`, and the sum of two rows is
the exclusive or of their words.
-/
namespace RowReduction.Row.Bits

def wordSize : Nat := 64

/-- Adds the source row to the target row, over whole words from the one that holds `start`. -/
def add (target source : Array UInt64) (start : Nat) : Array UInt64 :=
  target.mapIdx fun k t => if start / wordSize ≤ k then t ^^^ source.getD k 0 else t

def bitsOf (w : UInt64) : List Nat :=
  (List.range wordSize).map fun k => ((w >>> UInt64.ofNat k) &&& 1).toNat

def lowestBit (w : UInt64) : Option Nat := (bitsOf w).findIdx? (· != 0)

/-- The first set entry, whose value can only be 1, and its column. Zero words are passed over. -/
def leading (row : Array UInt64) : Option (Nat × Nat) :=
  (row.findIdx? (· != 0)).bind fun k =>
    (lowestBit (row.getD k 0)).map fun b => (k * wordSize + b, 1)

def entries (row : Array UInt64) (columns : Nat) : List Nat :=
  (row.toList.flatMap bitsOf).take columns

end RowReduction.Row.Bits
