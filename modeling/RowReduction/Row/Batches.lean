import RowReduction.SmallPrime
/-!
Rows of the batched encoding: one byte for an entry, processed in batches of 32 lanes. A sum is
reduced without a division: a product with a rounded reciprocal estimates the quotient, the estimate
is exact or one too small, and one conditional subtraction finishes.
-/
namespace RowReduction.Row.Batches

def batchSize : Nat := 32

/-- The reciprocal of `p` in units of `2 ^ -16`, rounded down. -/
def reciprocal (p : UInt32) : UInt32 := ((1 : UInt32) <<< 16) / p

/-- An estimate of `x / p` that is at most one too small, for `x` below `2 ^ 16`. -/
def quotientEstimate (p x : UInt32) : UInt32 := (x * reciprocal p) >>> 16

/-- The remainder of `x` modulo `p`, for `x` below `2 ^ 16`. -/
def reduce (p x : UInt32) : UInt32 :=
  let r := x - quotientEstimate p x * p
  if p ≤ r then r - p else r

def batchStart (start columns : Nat) : Nat := min start columns / batchSize * batchSize

/-- Adds `coefficient` times the source row to the target row, over whole batches from the one that
holds `start`. Padding takes part and stays zero. -/
def accumulate (p : SmallPrime) (target source : Array UInt8) (coefficient start columns : Nat) :
    Array UInt8 :=
  let modulus := UInt32.ofNat p.val
  let c := UInt32.ofNat coefficient
  target.mapIdx fun j t =>
    if batchStart start columns ≤ j then
      (reduce modulus (t.toUInt32 + c * (source.getD j 0).toUInt32)).toUInt8
    else t

/-- The union of the bits of batch `b`, which is zero exactly when every entry is. -/
def batchUnion (row : Array UInt8) (b : Nat) : UInt8 :=
  (List.range batchSize).foldl (fun acc k => acc ||| row.getD (b * batchSize + k) 0) 0

/-- The first nonzero entry and its column. Zero batches are passed over as a whole. -/
def leading (row : Array UInt8) : Option (Nat × Nat) :=
  (List.range (row.size / batchSize)).findSome? fun b =>
    if batchUnion row b = 0 then none
    else
      ((List.range batchSize).find? fun k => row.getD (b * batchSize + k) 0 != 0).map fun k =>
        (b * batchSize + k, (row.getD (b * batchSize + k) 0).toNat)

end RowReduction.Row.Batches
