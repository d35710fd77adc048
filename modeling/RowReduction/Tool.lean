import RowReduction.RowTable
import RowReduction.EncodedBasis
import RowReduction.Settings
import RowReduction.Tool.Arguments
import RowReduction.Tool.Files
/-!
The tool: it reads matrices from JSON files, runs one reduction and shows the result as JSON. A
splitting can be saved to a file, and preimages can be taken by a saved one.
-/
namespace RowReduction.Tool

inductive ToolError where
  | cannotOpen (path : String)
  | cannotParse (path : String)
  | cannotBuild
  | cannotCreate (path : String)
  | cannotReadBasis (path : String)
  | nothingToReduceBy
  | basisPrime (basis rows : SmallPrime)
  | matrixPrime (matrix rows : SmallPrime)
  | quotientPrime (kernel image : SmallPrime)
  | reduction (cause : ReductionError)
  deriving DecidableEq

def ToolError.message : ToolError → String
  | .cannotOpen path => s!"Failed to open {path}"
  | .cannotParse path => s!"Failed to parse {path}"
  | .cannotBuild => "Failed to build matrix"
  | .cannotCreate path => s!"Failed to create {path}"
  | .cannotReadBasis path => s!"Failed to read basis from {path}"
  | .nothingToReduceBy => "Either \x60a\x60 or --basis is required"
  | .basisPrime basis rows => s!"Basis is over F_{basis}, but l is over F_{rows}"
  | .matrixPrime matrix rows => s!"a is over F_{matrix}, but l is over F_{rows}"
  | .quotientPrime kernel image => s!"ker is over F_{kernel}, but im is over F_{image}"
  | .reduction cause => cause.message

inductive Stop where
  | failed (cause : ToolError)
  | violated (rule : Violation)
  deriving DecidableEq

/-- The input of the subcommand for preimages: rows, and the matrix to reduce them by, which is not
needed if a basis is given. -/
structure PreimageInput where
  matrix : Option RowTable
  rows : RowTable
  deriving DecidableEq

namespace PreimageInput

structure Partial where
  matrix : Option (Option RowTable)
  rows : Option RowTable

def fields : List (Json.Field Partial) :=
  [⟨"a", fun s => s.matrix.isSome,
      fun s => do return { s with matrix := some (← Json.optional RowTable.reader) }⟩,
    ⟨"l", fun s => s.rows.isSome,
      fun s => do return { s with rows := some (← RowTable.reader) }⟩]

def reader : Json.Reader PreimageInput := do
  let s ← Json.record false fields ⟨none, none⟩
  return ⟨s.matrix.getD none, ← Json.required s.rows⟩

end PreimageInput

structure QuotientInput where
  rows : RowTable
  image : RowTable

namespace QuotientInput

structure Partial where
  rows : Option RowTable
  image : Option RowTable

def fields : List (Json.Field Partial) :=
  [⟨"ker", fun s => s.rows.isSome,
      fun s => do return { s with rows := some (← RowTable.reader) }⟩,
    ⟨"im", fun s => s.image.isSome,
      fun s => do return { s with image := some (← RowTable.reader) }⟩]

def reader : Json.Reader QuotientInput := do
  let s ← Json.record false fields ⟨none, none⟩
  return ⟨← Json.required s.rows, ← Json.required s.image⟩

end QuotientInput

def matrixJson [Storage.Memory] (m : EncodedMatrix) : Checked String := do
  return (← RowTable.ofEncoded m).toJson

section Steps

variable [Storage.Memory] {m : Type → Type} [Monad m] {α : Type}

abbrev Step (m : Type → Type) := ExceptT Stop m

def fail (cause : ToolError) : Step m α := throw (.failed cause)

/-- Continues with a result unless a rule was broken. -/
def checked (result : Checked α) : Step m α :=
  match result with
  | .ok a => return a
  | .error rule => throw (.violated rule)

def answered {σ : Type} (result : Checked (Outcome σ ReductionError α)) : Step m (σ × α) := do
  let ⟨state, answer⟩ ← checked result
  match answer with
  | .ok a => return (state, a)
  | .error cause => fail (.reduction cause)

def build (settings : Settings) (rows : RowTable) : Step m EncodedMatrix := do
  match ← checked (rows.toEncoded (settings.encodingOver rows.prime)).run with
  | .ok matrix => return matrix
  | .error _ => fail .cannotBuild

variable [FileStore m]

def openFile (path : String) : Step m (Option (List UInt8)) := do
  match ← (FileStore.look path : m Found) with
  | .absent => fail (.cannotOpen path)
  | .unreadable => return none
  | .file contents => return some contents

def readJson (reader : Json.Reader α) (path : String) : Step m α := do
  match (← openFile path).map (Json.readText reader) with
  | some (.ok a) => return a
  | _ => fail (.cannotParse path)

/-- Reads a saved basis. What follows it in the file is ignored. -/
def readBasis (path : String) : Step m EncodedBasis := do
  match ← openFile path with
  | none => fail (.cannotReadBasis path)
  | some contents =>
    match ← checked (EncodedBasis.decode.run contents).run with
    | .ok (basis, _) => return basis
    | .error _ => fail (.cannotReadBasis path)

def saveBasis (path : String) (basis : EncodedBasis) : Step m Unit := do
  if !(← (FileStore.store path basis.encode : m Bool)) then fail (.cannotCreate path)

def split (settings : Settings) (input : String) (dual : Bool) (basisPath : Option String) :
    Step m String := do
  let matrix ← build settings (← readJson RowTable.reader input)
  let pacer ← checked settings.pacer
  let wanted : Wanted := ⟨true, dual, basisPath.isSome⟩
  let ((image, _), d) ← answered (matrix.split wanted pacer)
  match basisPath, d.basis with
  | some path, some basis => saveBasis path basis
  | _, _ => pure ()
  let named : List (String × Option EncodedMatrix) :=
    [("image", some image), ("kernel", d.kernel), ("dual", d.dual)]
  let shown ← checked <| (named.filterMap fun (name, matrix) => matrix.map (name, ·)).mapM
    fun (name, matrix) => return (name, ← matrixJson matrix)
  return Json.objectText (("rank", toString d.rank) :: shown)

/-- Shows the combinations of rows of a matrix, or of the matrix of a saved basis, that come closest
to given rows, and what is left of the rows. -/
def preimages (settings : Settings) (input : String) (basisPath : Option String) :
    Step m String := do
  let input ← readJson PreimageInput.reader input
  let p := input.rows.prime
  let rows ← build settings input.rows
  let pacer ← checked settings.pacer
  let (result, residues) ← match basisPath with
    | some path => do
      let basis ← readBasis path
      if basis.prime ≠ p then fail (.basisPrime basis.prime p)
      let ((residues, _), result) ← answered (basis.preimages rows pacer)
      pure (result, residues)
    | none => do
      match input.matrix with
      | none => fail .nothingToReduceBy
      | some table =>
        if table.prime ≠ p then fail (.matrixPrime table.prime p)
        let matrix ← build settings table
        let (left, result) ← answered (matrix.preimages rows pacer)
        pure (result, left.residues)
  let result ← checked (matrixJson result)
  let residues ← checked (matrixJson residues)
  return Json.objectText [("result", result), ("residue", residues)]

def quotient (settings : Settings) (input : String) : Step m String := do
  let input ← readJson QuotientInput.reader input
  if input.rows.prime ≠ input.image.prime then
    fail (.quotientPrime input.rows.prime input.image.prime)
  let rows ← build settings input.rows
  let image ← build settings input.image
  let pacer ← checked settings.pacer
  let ((basis, _), ()) ← answered (rows.quotientBasis image pacer)
  let shown ← checked (matrixJson basis)
  return Json.objectText [("rank", toString basis.rows), ("quotient", shown)]

def execute (settings : Settings) : Command → Step m String
  | .split input dual basis => split settings input dual basis
  | .preimages input basis => preimages settings input basis
  | .quotient input => quotient settings input

end Steps

inductive Ending where
  | shown (text : String)
  | rejected
  | stopped (cause : Stop)
  deriving DecidableEq

namespace Ending

def exitCode : Ending → Nat
  | .shown _ => 0
  | .stopped (.failed _) => 1
  | .rejected => 2
  | .stopped (.violated _) => 101

def output : Ending → String
  | .shown text => text ++ "\n"
  | _ => ""

def message : Ending → Option String
  | .stopped (.failed cause) => some cause.message
  | .stopped (.violated rule) => rule.message
  | _ => none

end Ending

/-- The settings of a request: chosen by its arguments, or else by the environment. -/
def requestSettings (environment : String → Option (List UInt8)) (request : Request) : Settings :=
  let settings := Settings.ofEnvironment environment
  let chosen := request.encoding.elim settings settings.chooseEncoding
  request.sampleShift.elim chosen chosen.chooseShift

def run [Storage.Memory] {m : Type → Type} [Monad m] [FileStore m]
    (environment : String → Option (List UInt8)) (arguments : List String) : m Ending := do
  match Arguments.parse arguments with
  | none => return .rejected
  | some request =>
    match ← (execute (requestSettings environment request) request.command : Step m String).run with
    | .ok text => return .shown text
    | .error cause => return .stopped cause

end RowReduction.Tool
