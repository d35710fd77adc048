/-!
Strict readers of JSON text. A reader takes bytes from the front of a text and stops at the first
fault, so a value that is refused for its meaning is reported only if the text is sound up to it.
Values of unknown fields are skipped, at any depth. Loops are bounded by the length of the text.
-/
namespace RowReduction.Json

/-- Why a text is refused: it is not in the form that is read, or a value in it has no meaning. -/
inductive JsonError where
  | malformed
  | notPrime (n : Nat)
  | sampleShift (shift limit : Nat)
  deriving DecidableEq, Repr

def JsonError.message : JsonError → Option String
  | .malformed => none
  | .notPrime n => some s!"{n} is not a valid prime"
  | .sampleShift shift limit =>
    some s!"sample shift {shift} is out of range, it must be less than {limit}"

/-- A reader that takes bytes from the front of a text. It knows the length of the whole text. -/
abbrev Reader := ReaderT Nat (StateT (List UInt8) (Except JsonError))

def quote : UInt8 := 0x22
def comma : UInt8 := 0x2c
def colon : UInt8 := 0x3a
def backslash : UInt8 := 0x5c
def openBracket : UInt8 := 0x5b
def closeBracket : UInt8 := 0x5d
def openBrace : UInt8 := 0x7b
def closeBrace : UInt8 := 0x7d

def isBlank (b : UInt8) : Bool := b == 0x20 || b == 0x09 || b == 0x0a || b == 0x0d

def isDigit (b : UInt8) : Bool := 0x30 ≤ b && b ≤ 0x39

def ascii (text : String) : List UInt8 := text.toList.map Char.toUInt8

/-- A bound on the number of rounds of a loop that takes a byte in each. -/
def rounds : Reader Nat := do return (← read) + 1

def malformed {α : Type} : Reader α := throw .malformed

def skipBlank : Reader Unit := modify fun text => text.dropWhile isBlank

def peek : Reader (Option UInt8) := do return (← get).head?

def take : Reader UInt8 := do
  match ← get with
  | [] => malformed
  | b :: rest =>
    set rest
    return b

def expect (b : UInt8) : Reader Unit := do
  if (← take) ≠ b then malformed

def accept (b : UInt8) : Reader Bool := do
  if (← peek) = some b then
    let _ ← take
    return true
  else return false

def literal (text : String) : Reader Unit := (ascii text).forM expect

def takeDigits : Reader (List UInt8) := do
  let text ← get
  set (text.dropWhile isDigit)
  return text.takeWhile isDigit

/-- The digits of the integer part of a number: a zero has no digit after it. -/
def integerPart : Reader (List UInt8) := do
  match ← takeDigits with
  | [] => malformed
  | first :: rest =>
    if first = 0x30 ∧ rest ≠ [] then malformed
    return first :: rest

/-- Whether the next byte continues an integer to a number that is none. -/
def startsFraction : Reader Bool := do
  return (← peek).any fun b => b == 0x2e || b == 0x45 || b == 0x65

def unsigned (limit : Nat) : Reader Nat := do
  skipBlank
  let digits ← integerPart
  if ← startsFraction then malformed
  let n := digits.foldl (fun n d => n * 10 + (d.toNat - 0x30)) 0
  if limit < n then malformed
  return n

def hexDigit (b : UInt8) : Reader Nat := do
  if isDigit b then return b.toNat - 0x30
  if 0x41 ≤ b ∧ b ≤ 0x46 then return b.toNat - 0x41 + 10
  if 0x61 ≤ b ∧ b ≤ 0x66 then return b.toNat - 0x61 + 10
  malformed

def hexQuad : Reader Nat := do
  let a ← hexDigit (← take)
  let b ← hexDigit (← take)
  let c ← hexDigit (← take)
  let d ← hexDigit (← take)
  return ((a * 16 + b) * 16 + c) * 16 + d

def isHighSurrogate (n : Nat) : Bool := 0xd800 ≤ n && n < 0xdc00

def isLowSurrogate (n : Nat) : Bool := 0xdc00 ≤ n && n < 0xe000

/-- The character of a numeric escape. Characters beyond the first 65536 take a pair of them. -/
def escapedCode : Reader Char := do
  let n ← hexQuad
  if isLowSurrogate n then malformed
  if isHighSurrogate n then
    expect backslash
    expect 0x75
    let low ← hexQuad
    if isLowSurrogate low then
      return Char.ofNat (0x10000 + (n - 0xd800) * 0x400 + (low - 0xdc00))
    else malformed
  else return Char.ofNat n

def simpleEscape (b : UInt8) : Option UInt8 :=
  [(quote, quote), (backslash, backslash), (0x2f, 0x2f), (0x62, 0x08), (0x66, 0x0c),
    (0x6e, 0x0a), (0x72, 0x0d), (0x74, 0x09)].lookup b

def escape : Reader (List UInt8) := do
  let b ← take
  match simpleEscape b with
  | some decoded => return [decoded]
  | none =>
    if b = 0x75 then return (String.singleton (← escapedCode)).toUTF8.toList
    else malformed

/-- Skips an escape after its backslash. A numeric one need not stand for a character. -/
def skipEscape : Reader Unit := do
  let b ← take
  if b = 0x75 then
    let _ ← hexQuad
  else if (simpleEscape b).isNone then malformed

def stringBytes : (rounds : Nat) → Reader (List UInt8)
  | 0 => malformed
  | rounds + 1 => do
    let b ← take
    if b = quote then return []
    else if b = backslash then
      let decoded ← escape
      return decoded ++ (← stringBytes rounds)
    else if b < 0x20 then malformed
    else return b :: (← stringBytes rounds)

def string : Reader String := do
  skipBlank
  expect quote
  let bytes ← stringBytes (← rounds)
  match String.fromUTF8? bytes.toByteArray with
  | some text => return text
  | none => malformed

def skipStringRest : (rounds : Nat) → Reader Unit
  | 0 => malformed
  | rounds + 1 => do
    let b ← take
    if b = quote then return ()
    else if b = backslash then
      skipEscape
      skipStringRest rounds
    else if b < 0x20 then malformed
    else skipStringRest rounds

def skipDigits : Reader Unit := do
  if (← takeDigits).isEmpty then malformed

def skipNumber : Reader Unit := do
  let _ ← accept 0x2d
  let _ ← integerPart
  if ← accept 0x2e then skipDigits
  if (← peek).any fun b => b == 0x45 || b == 0x65 then
    let _ ← take
    if !(← accept 0x2b) then
      let _ ← accept 0x2d
    skipDigits

inductive Container where
  | list
  | object
  deriving DecidableEq, Repr

def skipName : Reader Unit := do
  skipBlank
  expect quote
  skipStringRest (← rounds)
  skipBlank
  expect colon

/-- Skips a value inside the open containers, or what follows a value up to the end of the outermost
container. -/
def skipInside : (rounds : Nat) → (afterValue : Bool) → List Container → Reader Unit
  | 0, _, _ => malformed
  | _ + 1, true, [] => return ()
  | rounds + 1, true, container :: outer => do
    skipBlank
    let b ← take
    if b = comma then
      if container = .object then skipName
      skipInside rounds false (container :: outer)
    else if b = closeBracket ∧ container = .list ∨ b = closeBrace ∧ container = .object then
      skipInside rounds true outer
    else malformed
  | rounds + 1, false, outer => do
    skipBlank
    match ← peek with
    | none => malformed
    | some b =>
      if b = openBracket then
        let _ ← take
        skipBlank
        if ← accept closeBracket then skipInside rounds true outer
        else skipInside rounds false (.list :: outer)
      else if b = openBrace then
        let _ ← take
        skipBlank
        if ← accept closeBrace then skipInside rounds true outer
        else
          skipName
          skipInside rounds false (.object :: outer)
      else
        if b = quote then
          let _ ← take
          skipStringRest (rounds + 1)
        else if b = 0x6e then literal "null"
        else if b = 0x74 then literal "true"
        else if b = 0x66 then literal "false"
        else skipNumber
        skipInside rounds true outer

def skipValue : Reader Unit := do skipInside (2 * (← rounds)) false []

def items {α : Type} (item : Reader α) : (rounds : Nat) → (first : Bool) → Reader (List α)
  | 0, _ => malformed
  | rounds + 1, first => do
    skipBlank
    if ← accept closeBracket then return []
    if !first then expect comma
    let a ← item
    return a :: (← items item rounds false)

def list {α : Type} (item : Reader α) : Reader (List α) := do
  skipBlank
  expect openBracket
  items item (← rounds) true

def optional {α : Type} (value : Reader α) : Reader (Option α) := do
  skipBlank
  if (← peek) = some 0x6e then
    literal "null"
    return none
  else return some (← value)

structure Field (σ : Type) where
  name : String
  isKnown : σ → Bool
  read : σ → Reader σ

/-- The members of an object, after its opening brace. Unknown names are skipped, and no known one
may occur twice. -/
def members {σ : Type} (fields : List (Field σ)) :
    (rounds : Nat) → (first : Bool) → σ → Reader σ
  | 0, _, _ => malformed
  | rounds + 1, first, s => do
    skipBlank
    if ← accept closeBrace then return s
    if !first then expect comma
    let name ← string
    match fields.find? fun field => field.name == name with
    | none =>
      skipBlank
      expect colon
      skipValue
      members fields rounds false s
    | some field =>
      if field.isKnown s then malformed
      skipBlank
      expect colon
      members fields rounds false (← field.read s)

/-- The values of the fields in their order, after an opening bracket. The last ones may be missing
if `mayEnd`. -/
def positional {σ : Type} (mayEnd first : Bool) : List (Field σ) → σ → Reader σ
  | [], s => do
    skipBlank
    expect closeBracket
    return s
  | field :: rest, s => do
    skipBlank
    if ← accept closeBracket then
      if mayEnd then return s else malformed
    else
      if !first then expect comma
      positional mayEnd false rest (← field.read s)

def record {σ : Type} (mayEnd : Bool) (fields : List (Field σ)) (s : σ) : Reader σ := do
  skipBlank
  let b ← take
  if b = openBrace then members fields (← rounds) true s
  else if b = openBracket then positional mayEnd true fields s
  else malformed

def required {α : Type} : Option α → Reader α
  | some a => return a
  | none => malformed

def readText {α : Type} (value : Reader α) (text : List UInt8) : Except JsonError α := do
  let (a, rest) ← (value.run text.length).run text
  if rest.all isBlank then return a else throw .malformed

def listText {α : Type} (item : α → String) (xs : List α) : String :=
  "[" ++ ",".intercalate (xs.map item) ++ "]"

def objectText (members : List (String × String)) : String :=
  "\x7b" ++ ",".intercalate (members.map fun (name, value) => "\"" ++ name ++ "\":" ++ value) ++
    "\x7d"

end RowReduction.Json
