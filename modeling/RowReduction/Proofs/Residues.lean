import Mathlib
import RowReduction.SmallPrime

/-!
Small primes are primes, so residues modulo one form a field. The square-and-multiply loop computes
powers, hence inverses by Fermat's theorem, and the clearing coefficient of a pivot is minus its
inverse in that field.
-/
namespace RowReduction

/-- Enough steps decide every divisor from `k` on whose square does not exceed `n`. -/
theorem no_divisor_from {n steps k : Nat} (start : 2 ≤ k) (enough : n ≤ steps + k)
    (accepted : noDivisorFrom n steps k = true) :
    ∀ d, k ≤ d → d * d ≤ n → ¬ d ∣ n := by
  induction steps generalizing k with
  | zero =>
    intro d hd square _
    have double : 2 * d ≤ d * d := Nat.mul_le_mul_right d (Nat.le_trans start hd)
    omega
  | succ steps ih =>
    intro d hd square
    unfold noDivisorFrom at accepted
    split at accepted
    · rename_i past
      have wide : k * k ≤ d * d := Nat.mul_le_mul hd hd
      omega
    · split at accepted
      · contradiction
      · rename_i remainder
        rcases Nat.eq_or_lt_of_le hd with same | later
        · intro divides
          exact remainder (Nat.mod_eq_zero_of_dvd (same ▸ divides))
        · exact ih (by omega) (by omega) accepted d later square

theorem prime_of_isPrime {n : Nat} (accepted : isPrime n = true) : n.Prime := by
  simp only [isPrime, Bool.and_eq_true, decide_eq_true_eq] at accepted
  rw [Nat.prime_def_le_sqrt]
  refine ⟨accepted.1, ?_⟩
  intro d hd bound
  exact no_divisor_from (Nat.le_refl 2) (by omega) accepted.2 d hd (Nat.le_sqrt.mp bound)

instance (p : SmallPrime) : Fact p.val.Prime := ⟨prime_of_isPrime p.prime⟩

/-- The field of residues modulo a small prime. -/
abbrev Residue (p : SmallPrime) : Type := ZMod p.val

/-- The product of two numbers below `2 ^ 32` fits in a word. -/
theorem product_fits {a b : UInt64} (ha : a.toNat < 4294967296) (hb : b.toNat < 4294967296) :
    a.toNat * b.toNat < 2 ^ 64 :=
  calc a.toNat * b.toNat ≤ 4294967295 * 4294967295 := Nat.mul_le_mul (by omega) (by omega)
    _ < 2 ^ 64 := by decide

theorem toNat_mul_mod {a b m : UInt64} (ha : a.toNat < 4294967296) (hb : b.toNat < 4294967296) :
    (a * b % m).toNat = a.toNat * b.toNat % m.toNat := by
  rw [UInt64.toNat_mod, UInt64.toNat_mul, Nat.mod_eq_of_lt (product_fits ha hb)]

theorem toNat_half (x : UInt64) : (x >>> 1).toNat = x.toNat / 2 := by
  simp [UInt64.toNat_shiftRight, Nat.shiftRight_eq_div_pow]

theorem lowBit_eq_one {x : UInt64} : x &&& 1 = 1 ↔ x.toNat % 2 = 1 := by
  rw [← UInt64.toNat_inj, UInt64.toNat_and]
  simp [Nat.and_one_is_mod]

theorem toNat_mod_lt {m : UInt64} (positive : 0 < m.toNat) (small : m.toNat < 4294967296)
    (x : UInt64) : (x % m).toNat < 4294967296 := by
  rw [UInt64.toNat_mod]
  exact Nat.lt_trans (Nat.mod_lt _ positive) small

/-- The loop keeps `result * base ^ exponent` and uses up the exponent bit by bit. -/
theorem modPowLoop_power {m : UInt64} (positive : 0 < m.toNat) (small : m.toNat < 4294967296)
    (bits : Nat) (result base exponent : UInt64) (hr : result.toNat < 4294967296)
    (hb : base.toNat < 4294967296) (he : exponent.toNat < 2 ^ bits) :
    (modPowLoop m bits result base exponent).toNat % m.toNat =
      result.toNat * base.toNat ^ exponent.toNat % m.toNat := by
  induction bits generalizing result base exponent with
  | zero =>
    have none_left : exponent.toNat = 0 := by simpa using he
    simp [modPowLoop, none_left]
  | succ bits ih =>
    unfold modPowLoop
    split
    · rename_i none_left
      simp [none_left]
    · have half := toNat_half exponent
      have squared := toNat_mul_mod (m := m) hb hb
      have reduced := toNat_mod_lt positive small (base * base)
      have bound : (exponent >>> 1).toNat < 2 ^ bits := by
        rw [half]
        omega
      have parts := Nat.div_add_mod exponent.toNat 2
      split
      · rename_i last
        have last := lowBit_eq_one.mp last
        have product := toNat_mul_mod (m := m) hr hb
        have next := toNat_mod_lt positive small (result * base)
        rw [ih _ _ _ next reduced bound, squared, product, half]
        have split_power : base.toNat ^ exponent.toNat =
            base.toNat * (base.toNat * base.toNat) ^ (exponent.toNat / 2) := by
          rw [← Nat.pow_two, ← Nat.pow_mul, ← Nat.pow_succ', Nat.succ_eq_add_one]
          congr 1
          omega
        rw [split_power, ← Nat.mul_assoc]
        exact Nat.ModEq.mul (Nat.mod_modEq _ _) ((Nat.mod_modEq _ _).pow _)
      · rename_i last
        have last : exponent.toNat % 2 = 0 := by
          have := mt lowBit_eq_one.mpr last
          omega
        rw [ih _ _ _ hr reduced bound, squared, half]
        have split_power : base.toNat ^ exponent.toNat =
            (base.toNat * base.toNat) ^ (exponent.toNat / 2) := by
          rw [← Nat.pow_two, ← Nat.pow_mul]
          congr 1
          omega
        rw [split_power]
        exact Nat.ModEq.mul_left _ ((Nat.mod_modEq _ _).pow _)

theorem modPowLoop_lt {m : UInt64} (positive : 0 < m.toNat) {limit : Nat} (hm : m.toNat ≤ limit)
    (bits : Nat) (result base exponent : UInt64) (hr : result.toNat < limit) :
    (modPowLoop m bits result base exponent).toNat < limit := by
  induction bits generalizing result base exponent with
  | zero => exact hr
  | succ bits ih =>
    unfold modPowLoop
    split
    · exact hr
    · apply ih
      split
      · rw [UInt64.toNat_mod]
        exact Nat.lt_of_lt_of_le (Nat.mod_lt _ positive) hm
      · exact hr

/-- The last bit of the exponent, at the latest, makes the result a remainder. -/
theorem modPowLoop_lt_of_ne_zero {m : UInt64} (positive : 0 < m.toNat) (bits : Nat)
    (result base exponent : UInt64) (he : exponent.toNat < 2 ^ bits) (nonzero : exponent ≠ 0) :
    (modPowLoop m bits result base exponent).toNat < m.toNat := by
  induction bits generalizing result base exponent with
  | zero =>
    have none_left : exponent.toNat = 0 := by simpa using he
    exact absurd (UInt64.toNat_inj.mp none_left) nonzero
  | succ bits ih =>
    have half := toNat_half exponent
    unfold modPowLoop
    rw [if_neg nonzero]
    by_cases odd : exponent &&& 1 = 1
    · simp only [odd, if_true]
      apply modPowLoop_lt positive (Nat.le_refl _)
      rw [UInt64.toNat_mod]
      exact Nat.mod_lt _ positive
    · simp only [odd, if_false]
      have even := mt lowBit_eq_one.mpr odd
      apply ih
      · omega
      · intro none_left
        apply nonzero
        apply UInt64.toNat_inj.mp
        rw [none_left, UInt64.toNat_zero] at half
        rw [UInt64.toNat_zero]
        omega

/-- Powers are remainders, except that the empty product is 1 even modulo 1. -/
theorem modPow_eq {m : UInt32} (positive : 0 < m.toNat) (base exponent : UInt32)
    (reduced : m ≠ 1 ∨ exponent ≠ 0) : ∃ power, modPow m base exponent = .ok power ∧
      power.toNat = base.toNat ^ exponent.toNat % m.toNat := by
  have nonzero : m ≠ 0 := by
    rintro rfl
    simp at positive
  refine ⟨_, if_neg nonzero, ?_⟩
  have bits : exponent.toUInt64.toNat < 2 ^ 32 := by simpa using exponent.toNat_lt
  have below : (modPowLoop m.toUInt64 32 1 base.toUInt64 exponent.toUInt64).toNat <
      m.toUInt64.toNat := by
    rcases reduced with large | some_left
    · apply modPowLoop_lt (by simpa using positive) (Nat.le_refl _)
      have apart : m.toNat ≠ 1 := fun one => large (UInt32.toNat_inj.mp one)
      simp only [UInt64.toNat_one, UInt32.toNat_toUInt64]
      omega
    · apply modPowLoop_lt_of_ne_zero (by simpa using positive) _ _ _ _ bits
      intro none_left
      apply some_left
      apply UInt32.toNat_inj.mp
      simpa using congrArg UInt64.toNat none_left
  have power := modPowLoop_power (m := m.toUInt64) (by simpa using positive)
    (by simpa using m.toNat_lt) 32 1 base.toUInt64 exponent.toUInt64 (by simp)
    (by simpa using base.toNat_lt) bits
  rw [Nat.mod_eq_of_lt below] at power
  rw [UInt64.toNat_toUInt32, power]
  simp only [UInt64.toNat_one, Nat.one_mul, UInt32.toNat_toUInt64]
  have word := m.toNat_lt
  have remainder := Nat.mod_lt (base.toNat ^ exponent.toNat) positive
  exact Nat.mod_eq_of_lt (by omega)

namespace SmallPrime

theorem natCast_eq_zero (p : SmallPrime) {x : Nat} (small : x < p.val) :
    (x : Residue p) = 0 ↔ x = 0 := by
  rw [ZMod.natCast_eq_zero_iff]
  constructor
  · intro divides
    exact Nat.eq_zero_of_dvd_of_lt divides small
  · rintro rfl
    exact Nat.dvd_zero _

theorem inverse_eq (p : SmallPrime) {k : Nat} (positive : 0 < k) (small : k < p.val) :
    ∃ x, p.inverse k = .ok x ∧ 0 < x ∧ x < p.val ∧ (x : Residue p) = (k : Residue p)⁻¹ := by
  have hp := p.le_251
  have two := p.two_le
  have word {n : Nat} (h : n ≤ 251) : (UInt32.ofNat n).toNat = n :=
    UInt32.toNat_ofNat_of_lt' (by simp only [UInt32.size]; omega)
  have large : UInt32.ofNat p.val ≠ 1 := by
    intro one
    have value := congrArg UInt32.toNat one
    rw [word hp, UInt32.toNat_one] at value
    omega
  obtain ⟨power, computed, value⟩ := modPow_eq (m := UInt32.ofNat p.val)
    (by rw [word hp]; exact p.pos) (UInt32.ofNat k) (UInt32.ofNat (p.val - 2)) (.inl large)
  rw [word hp, word (by omega), word (by omega)] at value
  have nonzero : (k : Residue p) ≠ 0 := by
    rw [Ne, p.natCast_eq_zero small]
    omega
  have cast : (power.toNat : Residue p) = (k : Residue p)⁻¹ := by
    rw [value, ZMod.natCast_mod, Nat.cast_pow]
    apply eq_inv_of_mul_eq_one_left
    rw [← pow_succ, show p.val - 2 + 1 = p.val - 1 by omega]
    exact ZMod.pow_card_sub_one_eq_one nonzero
  have below : power.toNat < p.val := by
    rw [value]
    exact Nat.mod_lt _ p.pos
  refine ⟨power.toNat, ?_, ?_, below, cast⟩
  · simp only [inverse, positive, small, and_self, if_true, computed]
    rfl
  · apply Nat.pos_of_ne_zero
    intro zero
    rw [zero, Nat.cast_zero] at cast
    exact inv_ne_zero nonzero cast.symm

theorem neg_eq (p : SmallPrime) {k : Nat} (small : k < p.val) :
    ∃ x, p.neg k = .ok x ∧ x < p.val ∧ (x : Residue p) = -(k : Residue p) := by
  by_cases zero : k = 0
  · exact ⟨0, by simp [neg, zero], p.pos, by simp [zero]⟩
  · refine ⟨p.val - k, by simp [neg, zero, Nat.le_of_lt small], by omega, ?_⟩
    rw [Nat.cast_sub (Nat.le_of_lt small), ZMod.natCast_self, zero_sub]

theorem cast_product (p : SmallPrime) (x y : Residue p) :
    ((p.product x.val y.val : Nat) : Residue p) = x * y := by
  rw [product, ZMod.natCast_mod, Nat.cast_mul, ZMod.natCast_zmod_val, ZMod.natCast_zmod_val]

theorem product_lt (p : SmallPrime) (x y : Nat) : p.product x y < p.val := Nat.mod_lt _ p.pos

/-- The coefficient that clears an entry below a pivot, as a residue: minus the inverse. -/
theorem clearingCoefficient_eq (p : SmallPrime) {x : Residue p} (nonzero : x ≠ 0) :
    p.clearingCoefficient x.val = .ok (-x⁻¹).val := by
  obtain ⟨y, inverted, _, below, value⟩ := p.inverse_eq (ZMod.val_pos.mpr nonzero) (ZMod.val_lt x)
  obtain ⟨c, negated, reduced, coefficient⟩ := p.neg_eq below
  rw [ZMod.natCast_zmod_val] at value
  rw [← value, ← coefficient, ZMod.val_cast_of_lt reduced]
  simp only [clearingCoefficient, inverted, bind, Except.bind, negated]

end SmallPrime

end RowReduction
