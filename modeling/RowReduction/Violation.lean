/-!
Rules that a caller can break. A call that breaks one has no result and leaves nothing behind, so
`Checked` computations stop at the first violation. Some rules carry a sentence for the user, the
others are only stated.
-/
namespace RowReduction

/-- The rules that a caller of this library has to keep, each with the values that broke it. -/
inductive Violation where
  | primeTooLarge
  | compositePrime
  | zeroModulus
  | noInverse (k p : Nat)
  | unreducedNegation (k p : Nat)
  | packedNeedsTwo (p : Nat)
  | cannotStore (p : Nat) (encoding : String)
  | columnOutOfRange (column columns : Nat)
  | rowOutOfRange (row rows : Nat)
  | viewOutOfRange (row rows : Nat)
  | rowPairOutOfRange
  | sameRow
  | differentPrimes
  | differentWidths
  | notSquare
  | keptRowOutOfRange
  | keptRowsNotIncreasing
  | keptRowBehind (row next : Nat)
  | addOverDifferentPrimes
  | preimagesOverDifferentPrimes
  | replayOverDifferentPrimes
  | quotientOverDifferentPrimes
  | differentLengths
  | indexOutOfRange
  | capacityExceeded
  | strideTooLarge (entries : Nat)
  | sampleShiftTooLarge (shift : Nat)
  deriving DecidableEq, Repr

def Violation.message : Violation → Option String
  | .primeTooLarge =>
    some "Tried to construct a prime larger than the largest supported prime"
  | .compositePrime => some "Tried to construct a composite dynamic prime"
  | .noInverse k p => some s!"{k} has no inverse mod {p}"
  | .packedNeedsTwo p => some s!"The packed encoding only supports p = 2, not p = {p}"
  | .cannotStore p encoding =>
    some s!"Cannot store a matrix over F_{p} in the {encoding} encoding"
  | .columnOutOfRange column columns =>
    some s!"column {column} out of range ({columns} columns)"
  | .rowOutOfRange row rows => some s!"row {row} out of range ({rows} rows)"
  | .viewOutOfRange row rows => some s!"row {row} out of range for a matrix with {rows} rows"
  | .sameRow => some "cannot combine a row with itself"
  | .notSquare => some "make_identity requires a square matrix"
  | .keptRowOutOfRange => some "row index list must be strictly increasing and in range"
  | .keptRowsNotIncreasing => some "row index list must be strictly increasing"
  | .addOverDifferentPrimes => some "Adding matrices over different primes"
  | .preimagesOverDifferentPrimes => some "Lifting against a matrix over a different prime"
  | .replayOverDifferentPrimes => some "Lifting against a basis over a different prime"
  | .quotientOverDifferentPrimes =>
    some "Taking a quotient by a matrix over a different prime"
  | .sampleShiftTooLarge shift => some s!"sample shift {shift} is too large"
  | .zeroModulus | .unreducedNegation _ _ | .rowPairOutOfRange | .differentPrimes
  | .differentWidths | .keptRowBehind _ _ | .differentLengths | .indexOutOfRange
  | .capacityExceeded | .strideTooLarge _ => none

/-- A computation that stops when its caller has broken a rule. -/
abbrev Checked := Except Violation

def require (holds : Bool) (v : Violation) : Checked Unit :=
  if holds then .ok () else .error v

theorem require_eq_ok {holds : Bool} {v : Violation} :
    require holds v = .ok () ↔ holds = true := by
  cases holds <;> simp [require]

end RowReduction
