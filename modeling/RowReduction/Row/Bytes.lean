import RowReduction.SmallPrime
/-!
Rows of the generic encoding: one byte for an entry and plain arithmetic, entry by entry.
-/
namespace RowReduction.Row.Bytes

/-- Adds `coefficient` times the source row to the target row, in the columns from `start` on. -/
def accumulate (p : SmallPrime) (target source : Array UInt8) (coefficient start columns : Nat) :
    Array UInt8 :=
  target.mapIdx fun j t =>
    if start ≤ j ∧ j < columns then
      UInt8.ofNat (p.reduce (t.toNat + coefficient * (source.getD j 0).toNat))
    else t

def leading (row : Array UInt8) (columns : Nat) : Option (Nat × Nat) :=
  ((List.range columns).find? fun j => row.getD j 0 != 0).map fun j => (j, (row.getD j 0).toNat)

end RowReduction.Row.Bytes
