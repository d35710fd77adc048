import RowReduction.Elimination
import RowReduction.RowMatrix.Binary
/-!
The record of an elimination, enough to replay it against other rows. Row `k` of the image is the
`k`-th surviving row, with its pivot; row `k` of the combinations expresses it in the initial rows
of the eliminated matrix. The byte format keeps the image, the combinations and the pivot columns,
and the coefficients are computed anew.
-/
namespace RowReduction

structure PivotBasis (M : Type) where
  image : M
  combinations : M
  pivots : List Pivot
  deriving DecidableEq

namespace PivotBasis

variable [Storage.Memory] {M N : Type} {e : Encoding}

def rank (b : PivotBasis M) : Nat := b.pivots.length

def pivotColumns (b : PivotBasis M) : List Nat := b.pivots.map (·.column)

def mapBuild (f : M → Build N) (b : PivotBasis M) : Build (PivotBasis N) := do
  let image ← f b.image
  let combinations ← f b.combinations
  return ⟨image, combinations, b.pivots⟩

def prime (b : PivotBasis (RowMatrix e)) : SmallPrime := b.image.prime

def columns (b : PivotBasis (RowMatrix e)) : Nat := b.image.columns

/-- The number of rows of the matrix that was eliminated. -/
def sourceRows (b : PivotBasis (RowMatrix e)) : Nat := b.combinations.columns

def copyCombinations (combination : RowMatrix e) (copied : RowMatrix e) (pivots : List Pivot) :
    Checked (RowMatrix e) :=
  pivots.zipIdx.foldlM (fun copied (pivot, k) => copied.copyRowOf combination k pivot.row) copied

/-- The basis left by an elimination, whose pivots still have the old row numbers. -/
def collect (image combination : RowMatrix e) (pivots : List Pivot) :
    Build (PivotBasis (RowMatrix e)) := do
  let empty ← RowMatrix.new image.prime pivots.length combination.columns
  let combinations ← copyCombinations combination empty pivots
  let image ← image.copy
  return ⟨image, combinations, pivots.zipIdx.map fun (pivot, k) => { pivot with row := k }⟩

def encode (b : PivotBasis (RowMatrix e)) : List UInt8 :=
  b.image.encode ++ b.combinations.encode ++ b.pivotColumns.flatMap Binary.word

/-- Takes a pivot for each of the next `remaining` rows of an image from row `k` on. -/
def takePivots (image : RowMatrix e) : (remaining k : Nat) → Decoder (List Pivot)
  | 0, _ => return []
  | remaining + 1, k => do
    let column ← Binary.takeWord
    match ← liftM (image.leading k) with
    | none => throw (.misplacedPivot k column)
    | some (found, value) =>
      if found ≠ column then throw (.misplacedPivot k column)
      let coefficient ← liftM (image.prime.clearingCoefficient value)
      let rest ← takePivots image remaining (k + 1)
      return ⟨k, column, coefficient⟩ :: rest

/-- The lists of pivots and coefficients must fit in memory, at a word for each row. -/
def requireListFits (rows : Nat) : Checked Unit :=
  require (rows * Binary.wordBytes < Storage.allocationLimit) .capacityExceeded

def decode (p : SmallPrime) : Decoder (PivotBasis (RowMatrix e)) := do
  let image : RowMatrix e ← RowMatrix.decode p
  let combinations : RowMatrix e ← RowMatrix.decode p
  if combinations.rows ≠ image.rows then throw .rowCountMismatch
  liftM (requireListFits image.rows)
  let pivots ← takePivots image image.rows 0
  return ⟨image, combinations, pivots⟩

end PivotBasis

end RowReduction
