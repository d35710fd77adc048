import RowReduction.SmallPrime
import RowReduction.Storage
/-!
Vectors of residues that own their entries. The sum of vectors is the plain arithmetic of rows, one
entry after the other.
-/
namespace RowReduction

structure ResidueVector where
  prime : SmallPrime
  entries : List Nat
  deriving DecidableEq

namespace ResidueVector

def zero [Storage.Memory] (p : SmallPrime) (n : Nat) : Checked ResidueVector := do
  require (n < Storage.allocationLimit) .capacityExceeded
  return ⟨p, List.replicate n 0⟩

def ofList (p : SmallPrime) (xs : List Nat) : ResidueVector := ⟨p, xs.map p.reduce⟩

def length (v : ResidueVector) : Nat := v.entries.length

def isEmpty (v : ResidueVector) : Bool := v.entries.isEmpty

def entry (v : ResidueVector) (i : Nat) : Checked Nat :=
  match v.entries[i]? with
  | some x => .ok x
  | none => .error .indexOutOfRange

def putEntry (v : ResidueVector) (i value : Nat) : Checked ResidueVector := do
  require (i < v.length) .indexOutOfRange
  return { v with entries := v.entries.set i (v.prime.reduce value) }

def clear (v : ResidueVector) : ResidueVector := { v with entries := v.entries.map fun _ => 0 }

def isZero (v : ResidueVector) : Bool := v.entries.all (· == 0)

def addEntries (p : SmallPrime) (xs ys : List Nat) (coefficient : Nat) : List Nat :=
  List.zipWith (fun x y => p.sum x (p.product coefficient y)) xs ys

/-- Adds `coefficient` times `other`, a vector over the same prime and of the same length. -/
def add (v other : ResidueVector) (coefficient : Nat) : Checked ResidueVector := do
  require (v.prime = other.prime) .differentPrimes
  require (v.length = other.length) .differentLengths
  return { v with entries := addEntries v.prime v.entries other.entries coefficient }

def nonzero (v : ResidueVector) : List (Nat × Nat) :=
  (v.entries.zipIdx.filter fun (x, _) => x != 0).map fun (x, i) => (i, x)

def listText (xs : List Nat) : String := "[" ++ ", ".intercalate (xs.map toString) ++ "]"

instance : ToString ResidueVector := ⟨fun v => listText v.entries⟩

end ResidueVector

end RowReduction
