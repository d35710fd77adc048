/-!
Decimal numerals. Reading goes from left to right and stops at the first character that is no digit
or makes the value too large, so of two faults the leftmost is reported.
-/
namespace RowReduction

inductive NumeralError where
  | empty
  | invalidDigit
  | tooLarge
  deriving DecidableEq, Repr

def NumeralError.message : NumeralError → String
  | .empty => "cannot parse integer from empty string"
  | .invalidDigit => "invalid digit found in string"
  | .tooLarge => "number too large to fit in target type"

namespace Numeral

def maxWord32 : Nat := UInt32.size - 1

def continueDigits (limit value : Nat) : List Char → Except NumeralError Nat
  | [] => .ok value
  | c :: rest =>
    if c.isDigit then
      let next := value * 10 + (c.toNat - '0'.toNat)
      if next ≤ limit then continueDigits limit next rest else .error .tooLarge
    else .error .invalidDigit

def digits (limit : Nat) : List Char → Except NumeralError Nat
  | [] => .error .invalidDigit
  | cs => continueDigits limit 0 cs

/-- An unsigned numeral up to `limit`, which may carry a plus sign. -/
def unsigned (limit : Nat) (text : String) : Except NumeralError Nat :=
  match text.toList with
  | [] => .error .empty
  | '+' :: rest => digits limit rest
  | cs => digits limit cs

/-- A numeral with an optional sign that denotes a number from zero to `limit`. -/
def nonnegative (limit : Nat) (text : String) : Option Nat :=
  match text.toList with
  | '+' :: rest => (digits limit rest).toOption
  | '-' :: rest => (digits 0 rest).toOption
  | cs => (digits limit cs).toOption

end Numeral

end RowReduction
