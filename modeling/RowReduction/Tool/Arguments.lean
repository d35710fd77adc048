import RowReduction.Encoding
import RowReduction.Pacing
/-!
The arguments of the tool: options for all subcommands, a subcommand and its options. The options
for all may stand before and after the subcommand, and the later ones count. An option is given at
most once in each place; its value follows it, or is attached with an equals sign.
-/
namespace RowReduction.Tool

inductive Command where
  | split (input : String) (dual : Bool) (basis : Option String)
  | preimages (input : String) (basis : Option String)
  | quotient (input : String)
  deriving DecidableEq, Repr

structure Request where
  command : Command
  encoding : Option Encoding
  sampleShift : Option Nat
  deriving DecidableEq, Repr

namespace Arguments

structure Options where
  values : List (String × String)
  flags : List String
  deriving DecidableEq, Repr

structure Known where
  values : List String
  flags : List String

def noOptions : Options := ⟨[], []⟩

/-- Whether an argument starts with a hyphen and more, and so is no value. -/
def isOption (argument : String) : Bool := argument.startsWith "-" && argument != "-"

def splitOption (text : List Char) : String × Option String :=
  let name := String.ofList (text.takeWhile (· != '='))
  match text.dropWhile (· != '=') with
  | [] => (name, none)
  | _ :: value => (name, some (String.ofList value))

/-- Takes options from the front of the arguments, up to the first argument that is none. Two
hyphens end the options, and nothing may follow them. -/
def takeOptions (known : Known) : Options → List String → Option (Options × List String)
  | given, [] => some (given, [])
  | given, argument :: rest =>
    match argument.toList with
    | ['-', '-'] => if rest.isEmpty then some (given, []) else none
    | '-' :: '-' :: text =>
      let (name, attached) := splitOption text
      if known.flags.contains name && attached.isNone && !given.flags.contains name then
        takeOptions known { given with flags := name :: given.flags } rest
      else if known.values.contains name && (given.values.lookup name).isNone then
        match attached, rest with
        | some value, rest =>
          takeOptions known { given with values := (name, value) :: given.values } rest
        | none, value :: rest =>
          if isOption value then none
          else takeOptions known { given with values := (name, value) :: given.values } rest
        | none, [] => none
      else none
    | _ => if isOption argument then none else some (given, argument :: rest)
  termination_by _ arguments => arguments.length

def sharedOptions : List String := ["backend", "sample-shift"]

def subcommands : List (String × Known) :=
  [("orthonormalize", ⟨"input" :: "basis" :: sharedOptions, ["dual"]⟩),
    ("lift", ⟨"input" :: "basis" :: sharedOptions, []⟩),
    ("quotient", ⟨"input" :: sharedOptions, []⟩)]

/-- The value of an option, read by `read`. An option that is not given has none, and a value that
is not valid is refused. -/
def optionValue {α : Type} (options : Options) (name : String) (read : String → Option α) :
    Option (Option α) :=
  match options.values.lookup name with
  | none => some none
  | some text => (read text).map some

def path (text : String) : Option String := if text.isEmpty then none else some text

def encodingValue (options : Options) : Option (Option Encoding) :=
  optionValue options "backend" fun text => (Encoding.parse text).toOption

def sampleShiftValue (options : Options) : Option (Option Nat) :=
  optionValue options "sample-shift" (Numeral.nonnegative Numeral.maxWord32)

def command (subcommand : String) (options : Options) : Option Command := do
  let input ← (← optionValue options "input" path)
  let basis ← optionValue options "basis" path
  match subcommand with
  | "orthonormalize" => return .split input (options.flags.contains "dual") basis
  | "lift" => return .preimages input basis
  | "quotient" => return .quotient input
  | _ => none

/-- Reads the arguments of the tool. There is no request if any of them is not valid. -/
def parse (arguments : List String) : Option Request := do
  let (before, rest) ← takeOptions ⟨sharedOptions, []⟩ noOptions arguments
  match rest with
  | [] => none
  | subcommand :: rest =>
    let known ← subcommands.lookup subcommand
    let (after, stray) ← takeOptions known noOptions rest
    if !stray.isEmpty then none
    let encoding := (← encodingValue after).or (← encodingValue before)
    let sampleShift := (← sampleShiftValue after).or (← sampleShiftValue before)
    return ⟨← command subcommand after, encoding, sampleShift⟩

end Arguments

end RowReduction.Tool
