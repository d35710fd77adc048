import RowReduction.SmallPrime
import RowReduction.Storage
/-!
The three ways to lay out a row of residues. The generic and the batched encoding use a byte for an
entry and differ in the padding of a row; the packed encoding, for residues modulo 2 only, keeps 64
entries in a word. A `Cell` is the unit of storage, and an entry is a lane of a cell.
-/
namespace RowReduction

inductive Encoding where
  | generic
  | batched
  | packed
  deriving DecidableEq, Repr

structure UnknownEncoding where
  text : String
  deriving DecidableEq, Repr

def UnknownEncoding.message (e : UnknownEncoding) : String :=
  s!"Unknown matrix encoding: {e.text}"

namespace Encoding

def name : Encoding → String
  | .generic => "generic"
  | .batched => "batched"
  | .packed => "packed"

def ofName? (text : String) : Option Encoding :=
  [generic, batched, packed].find? fun e => e.name == text

/-- Reads the name of an encoding, where "simd" is another name of the batched one. -/
def parse (text : String) : Except UnknownEncoding Encoding :=
  if text = "simd" then .ok .batched
  else match ofName? text with
    | some e => .ok e
    | none => .error ⟨text⟩

def fastest (p : SmallPrime) : Encoding := if p.val = 2 then .packed else .batched

def canStore (e : Encoding) (p : SmallPrime) : Bool := e != .packed || p.val == 2

/-- The unit of storage: a byte for one entry, or a word for 64 of them. -/
@[reducible] def Cell : Encoding → Type
  | .generic => UInt8
  | .batched => UInt8
  | .packed => UInt64

def lanes : Encoding → Nat
  | .generic => 1
  | .batched => 1
  | .packed => 64

def cellBytes : Encoding → Nat
  | .generic => 1
  | .batched => 1
  | .packed => 8

/-- Rows are padded to a multiple of this many cells. -/
def alignment : Encoding → Nat
  | .generic => 8
  | .batched => 32
  | .packed => 4

def rowCells (e : Encoding) (columns : Nat) : Nat :=
  Storage.align ((columns + (e.lanes - 1)) / e.lanes) e.alignment

/-- The number of entries that a padded row has room for. -/
def rowEntries (e : Encoding) (columns : Nat) : Nat := e.rowCells columns * e.lanes

def zeroCell : (e : Encoding) → e.Cell
  | .generic => (0 : UInt8)
  | .batched => (0 : UInt8)
  | .packed => (0 : UInt64)

instance (e : Encoding) : DecidableEq e.Cell :=
  match e with
  | .generic => inferInstanceAs (DecidableEq UInt8)
  | .batched => inferInstanceAs (DecidableEq UInt8)
  | .packed => inferInstanceAs (DecidableEq UInt64)

def readLane (e : Encoding) (c : e.Cell) (lane : Nat) : Nat :=
  match e, c with
  | .generic, c => UInt8.toNat c
  | .batched, c => UInt8.toNat c
  | .packed, c => UInt64.toNat ((c >>> UInt64.ofNat lane) &&& 1)

def writeLane (e : Encoding) (c : e.Cell) (lane value : Nat) : e.Cell :=
  match e, c with
  | .generic, _ => UInt8.ofNat value
  | .batched, _ => UInt8.ofNat value
  | .packed, c =>
    let cleared : UInt64 := c &&& ~~~((1 : UInt64) <<< UInt64.ofNat lane)
    (cleared ||| (UInt64.ofNat (value % 2) <<< UInt64.ofNat lane) : UInt64)

end Encoding

end RowReduction
