import RowReduction.Numeral
import RowReduction.Violation
/-!
The primes whose residues fit in a byte, and arithmetic modulo them. A `SmallPrime` can only be
built from a number that passed the primality test, so every later module may divide by it.
Inverses come from Fermat's theorem, through a square-and-multiply loop on machine words.
-/
namespace RowReduction

/-- No number from `k` up to the square root of `n` divides `n`; `steps` bounds the search. -/
def noDivisorFrom (n : Nat) : (steps k : Nat) → Bool
  | 0, _ => true
  | steps + 1, k =>
    if n < k * k then true
    else if n % k = 0 then false
    else noDivisorFrom n steps (k + 1)

def isPrime (n : Nat) : Bool := decide (2 ≤ n) && noDivisorFrom n n 2

/-- A prime of at most 251, the largest that fits in a byte. -/
structure SmallPrime where
  val : Nat
  le_251 : val ≤ 251
  prime : isPrime val = true
  deriving DecidableEq

inductive SmallPrimeError where
  | notAnInteger (cause : NumeralError)
  | notPrime (n : Nat)
  deriving DecidableEq, Repr

def SmallPrimeError.message : SmallPrimeError → String
  | .notAnInteger cause => s!"Not an integer: {cause.message}"
  | .notPrime n => s!"{n} is not a valid prime"

namespace SmallPrime

def two : SmallPrime := ⟨2, by decide, by decide⟩

theorem two_le (p : SmallPrime) : 2 ≤ p.val := by
  have h := p.prime
  simp only [isPrime, Bool.and_eq_true, decide_eq_true_eq] at h
  exact h.1

theorem pos (p : SmallPrime) : 0 < p.val := by
  have h := p.two_le
  omega

/-- The small prime with value `n`, for a number that the caller promises to be one. -/
def ofNat (n : Nat) : Checked SmallPrime :=
  if small : n ≤ 251 then
    if prime : isPrime n = true then .ok ⟨n, small, prime⟩ else .error .compositePrime
  else .error .primeTooLarge

def ofNat? (n : Nat) : Except SmallPrimeError SmallPrime :=
  if h : n ≤ 251 ∧ isPrime n = true then .ok ⟨n, h.1, h.2⟩ else .error (.notPrime n)

def parse (text : String) : Except SmallPrimeError SmallPrime :=
  match Numeral.unsigned Numeral.maxWord32 text with
  | .ok n => ofNat? n
  | .error cause => .error (.notAnInteger cause)

instance : ToString SmallPrime := ⟨fun p => toString p.val⟩

def reduce (p : SmallPrime) (x : Nat) : Nat := x % p.val

def sum (p : SmallPrime) (x y : Nat) : Nat := (x + y) % p.val

def product (p : SmallPrime) (x y : Nat) : Nat := (x * y) % p.val

/-- The additive inverse of `k`, which must not exceed `p`. -/
def neg (p : SmallPrime) (k : Nat) : Checked Nat :=
  if k = 0 then .ok 0
  else if k ≤ p.val then .ok (p.val - k)
  else .error (.unreducedNegation k p.val)

end SmallPrime

/-- Multiplies `result` by `base ^ exponent` modulo `modulus`, over the lowest `bits` bits of the
exponent. Each product has factors below `2 ^ 32`, so it fits in a word. -/
def modPowLoop (modulus : UInt64) : (bits : Nat) → (result base exponent : UInt64) → UInt64
  | 0, result, _, _ => result
  | bits + 1, result, base, exponent =>
    if exponent = 0 then result
    else
      let result := if exponent &&& 1 = 1 then result * base % modulus else result
      modPowLoop modulus bits result (base * base % modulus) (exponent >>> 1)

/-- `base ^ exponent` modulo `modulus` by squaring. The empty product is 1, even modulo 1. -/
def modPow (modulus base exponent : UInt32) : Checked UInt32 :=
  if modulus = 0 then .error .zeroModulus
  else .ok (modPowLoop modulus.toUInt64 32 1 base.toUInt64 exponent.toUInt64).toUInt32

namespace SmallPrime

def inverse (p : SmallPrime) (k : Nat) : Checked Nat :=
  if 0 < k ∧ k < p.val then do
    let power ← modPow (UInt32.ofNat p.val) (UInt32.ofNat k) (UInt32.ofNat (p.val - 2))
    return power.toNat
  else .error (.noInverse k p.val)

/-- The multiple `-(1 / pivot)` of a pivot row that clears an entry 1 in the pivot's column. -/
def clearingCoefficient (p : SmallPrime) (pivot : Nat) : Checked Nat := do
  p.neg (← p.inverse pivot)

end SmallPrime

end RowReduction
