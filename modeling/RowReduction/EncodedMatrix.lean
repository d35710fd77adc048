import RowReduction.RowMatrix.Binary
import RowReduction.RowMatrix.View
/-!
A matrix together with its encoding, for programs that choose the encoding while they run. The
encoding always tells how the data is stored: an operation that stores it anew replaces both.
-/
namespace RowReduction

structure EncodedMatrix where
  encoding : Encoding
  matrix : RowMatrix encoding
  deriving DecidableEq

namespace EncodedMatrix

variable [Storage.Memory]

def prime (m : EncodedMatrix) : SmallPrime := m.matrix.prime

def rows (m : EncodedMatrix) : Nat := m.matrix.rows

def columns (m : EncodedMatrix) : Nat := m.matrix.columns

def new (e : Encoding) (p : SmallPrime) (rows columns : Nat) : Build EncodedMatrix := do
  return ⟨e, ← RowMatrix.new p rows columns⟩

def identity (e : Encoding) (p : SmallPrime) (n : Nat) : Build EncodedMatrix := do
  return ⟨e, ← RowMatrix.identity p n⟩

def ofLists (e : Encoding) (p : SmallPrime) (rows : List (List Nat)) (columns : Nat) :
    Build EncodedMatrix := do
  return ⟨e, ← RowMatrix.ofLists p rows columns⟩

def decode (e : Encoding) (p : SmallPrime) : Decoder EncodedMatrix := do
  return ⟨e, ← RowMatrix.decode p⟩

def copy (m : EncodedMatrix) : Build EncodedMatrix := do
  return ⟨m.encoding, ← m.matrix.copy⟩

def recode (f : Encoding) (m : EncodedMatrix) : Build EncodedMatrix := do
  return ⟨f, ← m.matrix.recode f⟩

/-- The matrix in encoding `f`. It is only stored anew if it is in another encoding. -/
def inEncoding (f : Encoding) (m : EncodedMatrix) : Build (RowMatrix f) :=
  if h : m.encoding = f then return h ▸ m.matrix else m.matrix.recode f

/-- Replaces a matrix by its copy in encoding `f`, unless that is its encoding already. -/
def recodeInPlace (f : Encoding) (m : EncodedMatrix) :
    Checked (Outcome EncodedMatrix StorageError Unit) := do
  match ← (m.inEncoding f).run with
  | .ok matrix => return ⟨⟨f, matrix⟩, .ok ()⟩
  | .error failure => return ⟨m, .error failure⟩

def update {ε α : Type} (m : EncodedMatrix) (result : Outcome (RowMatrix m.encoding) ε α) :
    Outcome EncodedMatrix ε α :=
  ⟨⟨m.encoding, result.state⟩, result.answer⟩

def addEntries {e f : Encoding} (m : RowMatrix e) (other : RowMatrix f) (coefficient : Nat) :
    Checked (RowMatrix e) :=
  (List.range (other.rows * other.columns)).foldlM (fun sum k => do
    let i := k / other.columns
    let j := k % other.columns
    let x := other.read i j
    if x = 0 then return sum
    sum.addEntry i j (m.prime.product coefficient x)) m

/-- Adds a multiple of a matrix of the same shape. Matrices of one encoding are added by that
encoding. Otherwise an even multiple modulo 2 changes nothing, and in every other case the left
matrix is first stored in the generic encoding. -/
def add (m other : EncodedMatrix) (coefficient : Nat) :
    Checked (Outcome EncodedMatrix StorageError Unit) := do
  require (m.prime = other.prime) .addOverDifferentPrimes
  match checkWidths m.columns other.columns, checkWidths m.rows other.rows with
  | .error failure, _ => return ⟨m, .error failure⟩
  | .ok (), .error failure => return ⟨m, .error failure⟩
  | .ok (), .ok () =>
    if h : m.encoding = other.encoding then
      return m.update (← m.matrix.add (h ▸ other.matrix) coefficient)
    else if m.prime.val = 2 ∧ coefficient % 2 = 0 then return ⟨m, .ok ()⟩
    else
      match ← (m.inEncoding .generic).run with
      | .error failure => return ⟨m, .error failure⟩
      | .ok matrix =>
        let sum ← addEntries matrix other.matrix (m.prime.reduce coefficient)
        return ⟨⟨.generic, sum⟩, .ok ()⟩

end EncodedMatrix

end RowReduction
