import RowReduction.EncodedMatrix
import RowReduction.Json.Reader
/-!
The JSON form of a matrix: a prime, a number of columns and a list of rows. Any encoding can be
written in this form and read from it.
-/
namespace RowReduction

structure RowTable where
  prime : SmallPrime
  columns : Nat
  rows : List (List Nat)
  deriving DecidableEq

namespace Json

def prime : Reader SmallPrime := do
  let n ← unsigned Numeral.maxWord32
  match SmallPrime.ofNat? n with
  | .ok p => return p
  | .error _ => throw (.notPrime n)

def word32 : Reader Nat := unsigned Numeral.maxWord32

def size : Reader Nat := unsigned Storage.maxSize

end Json

namespace RowTable

variable [Storage.Memory]

def rowBytes : Nat := 24

/-- The entries of a matrix. The list of its rows must fit in memory, even if they are empty. -/
def ofMatrix {e : Encoding} (m : RowMatrix e) : Checked RowTable := do
  require (m.rows * rowBytes < Storage.allocationLimit) .capacityExceeded
  return ⟨m.prime, m.columns, m.toLists⟩

def ofEncoded (m : EncodedMatrix) : Checked RowTable := ofMatrix m.matrix

def toEncoded (d : RowTable) (e : Encoding) : Build EncodedMatrix :=
  EncodedMatrix.ofLists e d.prime d.rows d.columns

def toJson (d : RowTable) : String :=
  Json.objectText
    [("p", toString d.prime), ("columns", toString d.columns),
      ("rows", Json.listText (Json.listText toString) d.rows)]

structure Partial where
  prime : Option SmallPrime
  columns : Option Nat
  rows : Option (List (List Nat))

def fields : List (Json.Field Partial) :=
  [⟨"p", fun s => s.prime.isSome, fun s => do return { s with prime := some (← Json.prime) }⟩,
    ⟨"columns", fun s => s.columns.isSome,
      fun s => do return { s with columns := some (← Json.size) }⟩,
    ⟨"rows", fun s => s.rows.isSome,
      fun s => do return { s with rows := some (← Json.list (Json.list Json.word32)) }⟩]

def reader : Json.Reader RowTable := do
  let s ← Json.record false fields ⟨none, none, none⟩
  return ⟨← Json.required s.prime, ← Json.required s.columns, ← Json.required s.rows⟩

end RowTable

end RowReduction
