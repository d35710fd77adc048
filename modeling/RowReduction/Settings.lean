import RowReduction.EncodedMatrix
import RowReduction.Json.Reader
import RowReduction.Pacing
/-!
Settings that all reductions share: how often to look for progress and cancellation, and which
encoding to use. They are read from JSON or from environment variables; an environment variable
whose value is not valid is passed over, and a JSON text with such a value is refused.
-/
namespace RowReduction

structure Settings where
  sampleShift : Nat
  encoding : Option Encoding
  deriving DecidableEq, Repr

namespace Json

def encodingName : Reader Encoding := do
  match Encoding.ofName? (← string) with
  | some e => return e
  | none => malformed

/-- An encoding, written as its name or as an object whose only member has that name. -/
def encoding : Reader Encoding := do
  skipBlank
  if ← accept openBrace then
    let e ← encodingName
    skipBlank
    expect colon
    skipBlank
    literal "null"
    skipBlank
    expect closeBrace
    return e
  else encodingName

def encodingText (e : Encoding) : String := "\"" ++ e.name ++ "\""

end Json

namespace Settings

def standard : Settings := ⟨Pacer.standardShift, none⟩

/-- Replaces the sample shift, unless it is too large for a pacer. -/
def chooseShift (s : Settings) (shift : Nat) : Settings :=
  if shift < Pacer.shiftLimit then { s with sampleShift := shift } else s

def chooseEncoding (s : Settings) (e : Encoding) : Settings := { s with encoding := some e }

/-- The encoding for matrices over `p`. A chosen one that does not support `p` is passed over. -/
def encodingOver (s : Settings) (p : SmallPrime) : Encoding :=
  match s.encoding with
  | some e => if e.canStore p then e else .fastest p
  | none => .fastest p

def pacer (s : Settings) : Checked Pacer := Pacer.new s.sampleShift

def sampleShiftVariable : String := "STEENROD_SAMPLE_SHIFT"

def encodingVariable : String := "STEENROD_BACKEND"

def textOf (value : Option (List UInt8)) : Option String :=
  value.bind fun bytes => String.fromUTF8? bytes.toByteArray

/-- The standard settings, changed by the valid ones among the environment variables. -/
def ofEnvironment (lookup : String → Option (List UInt8)) : Settings :=
  let shift := (textOf (lookup sampleShiftVariable)).bind fun text =>
    (Numeral.unsigned Numeral.maxWord32 text).toOption
  let encoding := (textOf (lookup encodingVariable)).bind fun text =>
    (Encoding.parse text).toOption
  let shifted := shift.elim standard standard.chooseShift
  encoding.elim shifted shifted.chooseEncoding

def toJson (s : Settings) : String :=
  Json.objectText
    [("sample_shift", toString s.sampleShift),
      ("encoding", s.encoding.elim "null" Json.encodingText)]

def shiftReader : Json.Reader Nat := do
  let shift ← Json.unsigned Numeral.maxWord32
  if shift < Pacer.shiftLimit then return shift
  else throw (.sampleShift shift Pacer.shiftLimit)

structure Partial where
  sampleShift : Option Nat
  encoding : Option (Option Encoding)

def fields : List (Json.Field Partial) :=
  [⟨"sample_shift", fun s => s.sampleShift.isSome,
      fun s => do return { s with sampleShift := some (← shiftReader) }⟩,
    ⟨"encoding", fun s => s.encoding.isSome,
      fun s => do return { s with encoding := some (← Json.optional Json.encoding) }⟩]

def reader : Json.Reader Settings := do
  let s ← Json.record true fields ⟨none, none⟩
  return ⟨s.sampleShift.getD standard.sampleShift, s.encoding.getD standard.encoding⟩

end Settings

end RowReduction
