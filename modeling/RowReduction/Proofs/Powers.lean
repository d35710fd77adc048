import Mathlib
import RowReduction.Proofs.Residues

/-!
Powers by squaring, for every modulus. Neither the base nor the first result need be reduced, but
both are below `2 ^ 32`, and each step leaves remainders, so no product is too large for a word. The
one power that is not reduced is the empty product: no step is taken, and it is 1 even modulo 1.
-/
namespace RowReduction

/-- The product of two words, if it fits in a word. -/
def fittingProduct (x y : UInt64) : Option UInt64 :=
  if x.toNat * y.toNat < UInt64.size then some (x * y) else none

/-- The loop of `modPowLoop` with every product held to a word. It gives up at the first one that is
too large. -/
def fittingPowLoop (modulus : UInt64) :
    (bits : Nat) → (result base exponent : UInt64) → Option UInt64
  | 0, result, _, _ => some result
  | bits + 1, result, base, exponent =>
    if exponent = 0 then some result
    else do
      let result ←
        if exponent &&& 1 = 1 then (· % modulus) <$> fittingProduct result base else some result
      let square ← fittingProduct base base
      fittingPowLoop modulus bits result (square % modulus) (exponent >>> 1)

theorem fittingProduct_eq {x y : UInt64} (hx : x.toNat < 4294967296) (hy : y.toNat < 4294967296) :
    fittingProduct x y = some (x * y) :=
  if_pos (product_fits hx hy)

/-- No product of the loop is too large. The invariant is that the result and the base are below
`2 ^ 32`; they need not be below the modulus. -/
theorem fittingPowLoop_eq {m : UInt64} (positive : 0 < m.toNat) (small : m.toNat < 4294967296)
    (bits : Nat) (result base exponent : UInt64) (hr : result.toNat < 4294967296)
    (hb : base.toNat < 4294967296) :
    fittingPowLoop m bits result base exponent =
      some (modPowLoop m bits result base exponent) := by
  induction bits generalizing result base exponent with
  | zero => rfl
  | succ bits ih =>
    have product := fittingProduct_eq hr hb
    have square := fittingProduct_eq hb hb
    have reduced := toNat_mod_lt positive small
    unfold fittingPowLoop modPowLoop
    by_cases none_left : exponent = 0
    · simp [none_left]
    · by_cases odd : exponent &&& 1 = 1
      · simp [none_left, odd, product, square, ih _ _ _ (reduced _) (reduced _)]
      · simp [none_left, odd, square, ih _ _ _ hr (reduced _)]

/-- For every modulus, base and exponent the loop computes the remainder of the power, and all its
products fit in a word. The exception is the empty product modulo 1. -/
theorem modPow_power {modulus : UInt32} (positive : 0 < modulus.toNat) (base exponent : UInt32) :
    ∃ power, modPow modulus base exponent = .ok power ∧
      power.toNat = (if modulus = 1 ∧ exponent = 0 then 1
        else base.toNat ^ exponent.toNat % modulus.toNat) ∧
      fittingPowLoop modulus.toUInt64 32 1 base.toUInt64 exponent.toUInt64 =
        some power.toUInt64 := by
  have nonzero : modulus ≠ 0 := by
    rintro rfl
    simp at positive
  have word : 0 < modulus.toUInt64.toNat := by simpa using positive
  have small : modulus.toUInt64.toNat < 4294967296 := by simpa using modulus.toNat_lt
  have factor : base.toUInt64.toNat < 4294967296 := by simpa using base.toNat_lt
  have narrow := modPowLoop_lt word (Nat.le_of_lt small) 32 1 base.toUInt64 exponent.toUInt64
    (by simp)
  refine ⟨_, if_neg nonzero, ?_, ?_⟩
  · by_cases empty : modulus = 1 ∧ exponent = 0
    · obtain ⟨rfl, rfl⟩ := empty
      rfl
    · obtain ⟨power, computed, value⟩ := modPow_eq positive base exponent (not_and_or.mp empty)
      cases (if_neg nonzero).symm.trans computed
      rw [if_neg empty]
      exact value
  · rw [fittingPowLoop_eq word small 32 1 _ _ (by simp) factor, Option.some.injEq]
    apply UInt64.toNat_inj.mp
    rw [UInt32.toNat_toUInt64, UInt64.toNat_toUInt32, Nat.mod_eq_of_lt narrow]

/-- A base that is not reduced, at the upper end of its range. -/
theorem modPow_power_of_sample : 0 < (4294967291 : UInt32).toNat ∧
    ∃ power, modPow 4294967291 4294967295 5 = .ok power ∧
      power.toNat = (if (4294967291 : UInt32) = 1 ∧ (5 : UInt32) = 0 then 1
        else (4294967295 : UInt32).toNat ^ (5 : UInt32).toNat % (4294967291 : UInt32).toNat) ∧
      fittingPowLoop (4294967291 : UInt32).toUInt64 32 1 (4294967295 : UInt32).toUInt64
        (5 : UInt32).toUInt64 = some power.toUInt64 :=
  ⟨by decide, modPow_power (by decide) 4294967295 5⟩

/-- The empty product is not reduced modulo 1. -/
theorem modPow_one_zero : ¬ ∀ modulus base exponent : UInt32, 0 < modulus.toNat →
    ∃ power, modPow modulus base exponent = .ok power ∧
      power.toNat = base.toNat ^ exponent.toNat % modulus.toNat := by
  intro reduced
  obtain ⟨power, computed, value⟩ := reduced 1 5 0 (by decide)
  have one : modPow 1 5 0 = .ok 1 := by decide
  cases one.symm.trans computed
  exact absurd value (by decide)

end RowReduction
