import RowReduction.RowMatrix.Construction
/-!
The byte format of a matrix: the numbers of rows and columns as little-endian words of eight bytes,
then every entry as one byte, row by row. The format is the same for all encodings, and padding is
not written.
-/
namespace RowReduction

inductive DecodeError where
  | endOfInput
  | outOfMemory
  | unreducedEntry (x p : Nat)
  | notPrime (n : Nat)
  | unknownTag (tag p : Nat)
  | rowCountMismatch
  | misplacedPivot (row column : Nat)
  deriving DecidableEq, Repr

def DecodeError.message : DecodeError → Option String
  | .endOfInput | .outOfMemory => none
  | .unreducedEntry x p => some s!"entry {x} is not reduced mod {p}"
  | .notPrime n => some (SmallPrimeError.notPrime n).message
  | .unknownTag tag p => some s!"invalid encoding tag {tag} for p = {p}"
  | .rowCountMismatch => some "image and preimage have different numbers of rows"
  | .misplacedPivot row column =>
    some s!"row {row} does not have its pivot in column {column}"

abbrev Decoder := StateT (List UInt8) (ExceptT DecodeError Checked)

namespace Binary

def ofLittleEndian : List UInt8 → Nat
  | [] => 0
  | b :: rest => b.toNat + 256 * ofLittleEndian rest

/-- The `width` low bytes of a number, least significant first. -/
def littleEndian : (width : Nat) → Nat → List UInt8
  | 0, _ => []
  | width + 1, n => UInt8.ofNat n :: littleEndian width (n / 256)

@[simp]
theorem length_littleEndian (width n : Nat) : (littleEndian width n).length = width := by
  induction width generalizing n with
  | zero => rfl
  | succ width ih => simp [littleEndian, ih]

theorem littleEndian_ofLittleEndian (bytes : List UInt8) :
    littleEndian bytes.length (ofLittleEndian bytes) = bytes := by
  induction bytes with
  | nil => rfl
  | cons b rest ih =>
    have low := b.toNat_lt
    have high : (b.toNat + 256 * ofLittleEndian rest) / 256 = ofLittleEndian rest := by omega
    simp only [List.length_cons, ofLittleEndian, littleEndian, high, ih]
    congr 1
    exact UInt8.toNat_inj.mp (by simp)

def wordBytes : Nat := 8

def word (n : Nat) : List UInt8 := littleEndian wordBytes n

theorem ofLittleEndian_word {n : Nat} (size : n ≤ Storage.maxSize) :
    ofLittleEndian (word n) = n := by
  simp only [Storage.maxSize, UInt64.size] at size
  simp [word, wordBytes, littleEndian, ofLittleEndian]
  omega

def takeByte : Decoder UInt8 := do
  match ← get with
  | [] => throw .endOfInput
  | b :: rest =>
    set rest
    return b

def takeWord : Decoder Nat := do
  let input ← get
  let bytes := input.take wordBytes
  if bytes.length < wordBytes then throw .endOfInput
  set (input.drop wordBytes)
  return ofLittleEndian bytes

def takeResidues (p : SmallPrime) : (n : Nat) → Decoder (List Nat)
  | 0 => return []
  | n + 1 => do
    let x := (← takeByte).toNat
    if p.val ≤ x then throw (.unreducedEntry x p.val)
    let rest ← takeResidues p n
    return x :: rest

/-- Runs a construction inside a decoder. All that is told of a storage error is that there was
one. -/
def build {α : Type} (construction : Build α) : Decoder α := fun input => do
  match ← construction.run with
  | .ok a => return (a, input)
  | .error _ => throw .outOfMemory

end Binary

namespace RowMatrix

variable [Storage.Memory] {e : Encoding}

def encode (m : RowMatrix e) : List UInt8 :=
  Binary.word m.rows ++ Binary.word m.columns ++
    (List.range (m.rows * m.columns)).map fun k =>
      UInt8.ofNat (m.read (k / m.columns) (k % m.columns))

/-- Reads a matrix over `p`. The announced size is checked before any entry is read. -/
def decode (p : SmallPrime) : Decoder (RowMatrix e) := do
  let rows ← Binary.takeWord
  let columns ← Binary.takeWord
  Binary.build (checkNew e p rows columns)
  let residues := (← Binary.takeResidues p (rows * columns)).toArray
  let m : RowMatrix e ← Binary.build (new p rows columns)
  return m.fill fun i j => residues.getD (i * columns + j) 0

end RowMatrix

end RowReduction
