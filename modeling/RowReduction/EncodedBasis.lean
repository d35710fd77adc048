import RowReduction.EncodedMatrix
import RowReduction.Preimage
import RowReduction.QuotientBasis
/-!
The reductions for matrices that carry their encoding, and bases that do. A call works in the
encoding of the matrix or basis that it reduces by; the other matrix is stored in that encoding
first. The bytes of a basis start with its prime and a tag for its encoding.
-/
namespace RowReduction

structure EncodedBasis where
  encoding : Encoding
  basis : PivotBasis (RowMatrix encoding)
  deriving DecidableEq

namespace EncodedBasis

variable [Storage.Memory]

def prime (b : EncodedBasis) : SmallPrime := b.basis.prime

def rank (b : EncodedBasis) : Nat := b.basis.rank

def columns (b : EncodedBasis) : Nat := b.basis.columns

def pivotColumns (b : EncodedBasis) : List Nat := b.basis.pivotColumns

def tag : Encoding → UInt8
  | .generic => 0
  | .batched => 1
  | .packed => 2

/-- The encoding that a byte stands for, for a prime that it supports. -/
def ofTag? (p : SmallPrime) (b : UInt8) : Option Encoding :=
  [Encoding.generic, .batched, .packed].find? fun e => tag e == b && e.canStore p

def encode (b : EncodedBasis) : List UInt8 :=
  UInt8.ofNat b.prime.val :: tag b.encoding :: b.basis.encode

def decode : Decoder EncodedBasis := do
  let n := (← Binary.takeByte).toNat
  match SmallPrime.ofNat? n with
  | .error _ => throw (.notPrime n)
  | .ok p =>
    let t ← Binary.takeByte
    match ofTag? p t with
    | none => throw (.unknownTag t.toNat p.val)
    | some e => return ⟨e, ← PivotBasis.decode p⟩

/-- Reduces `l` by the pivots of a basis. Widths are compared before `l` is stored anew. -/
def preimages (b : EncodedBasis) (l : EncodedMatrix) (pacer : Pacer) :
    Checked (Outcome (EncodedMatrix × Pacer) ReductionError EncodedMatrix) := do
  let prepared : Build (RowMatrix b.encoding) := do
    liftM (checkWidths b.columns l.columns)
    l.inEncoding b.encoding
  match ← prepared.run with
  | .error failure => return ⟨(l, pacer), .error (.storage failure)⟩
  | .ok converted =>
    let ⟨(residues, pacer), answer⟩ ← b.basis.preimages converted pacer
    return ⟨(⟨b.encoding, residues⟩, pacer), answer.map fun r => ⟨b.encoding, r⟩⟩

end EncodedBasis

structure EncodedSplitting where
  rank : Nat
  kernel : Option EncodedMatrix
  dual : Option EncodedMatrix
  basis : Option EncodedBasis
  deriving DecidableEq

structure EncodedPreimageState where
  matrix : EncodedMatrix
  residues : EncodedMatrix
  pacer : Pacer

namespace EncodedMatrix

variable [Storage.Memory]

def split (m : EncodedMatrix) (wanted : Wanted) (pacer : Pacer) :
    Checked (Outcome (EncodedMatrix × Pacer) ReductionError EncodedSplitting) := do
  let ⟨(left, pacer), answer⟩ ← m.matrix.split wanted pacer
  let encoded (d : Splitting (RowMatrix m.encoding)) : EncodedSplitting :=
    ⟨d.rank, d.kernel.map (⟨m.encoding, ·⟩), d.dual.map (⟨m.encoding, ·⟩),
      d.basis.map (⟨m.encoding, ·⟩)⟩
  return ⟨(⟨m.encoding, left⟩, pacer), answer.map encoded⟩

/-- Eliminates `m` and reduces `l` along with it, in the encoding of `m`. Widths are compared before
`l` is stored anew. -/
def preimages (m l : EncodedMatrix) (pacer : Pacer) :
    Checked (Outcome EncodedPreimageState ReductionError EncodedMatrix) := do
  let prepared : Build (RowMatrix m.encoding) := do
    liftM (checkWidths m.columns l.columns)
    l.inEncoding m.encoding
  match ← prepared.run with
  | .error failure => return ⟨⟨m, l, pacer⟩, .error (.storage failure)⟩
  | .ok converted =>
    let ⟨left, answer⟩ ← m.matrix.preimages converted pacer
    return ⟨⟨⟨m.encoding, left.matrix⟩, ⟨m.encoding, left.residues⟩, left.pacer⟩,
      answer.map fun r => ⟨m.encoding, r⟩⟩

/-- Reduces the rows of `m` to a basis of their span modulo the row space of `image`. If the
encodings differ, a converted copy of the image is used. -/
def quotientBasis (m image : EncodedMatrix) (pacer : Pacer) :
    Checked (Outcome (EncodedMatrix × Pacer) ReductionError Unit) := do
  match ← (image.inEncoding m.encoding).run with
  | .error failure => return ⟨(m, pacer), .error (.storage failure)⟩
  | .ok converted =>
    let ⟨(left, pacer), answer⟩ ← m.matrix.quotientBasis converted pacer
    return ⟨(⟨m.encoding, left⟩, pacer), answer⟩

end EncodedMatrix

end RowReduction
