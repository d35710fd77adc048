import Mathlib
import RowReduction.Proofs.Rows

/-!
Sums of rows. Every encoding adds a multiple of one row to another entry by entry modulo the
prime, from a first column of its own choice on, so a sum is exact as soon as the source row is
zero before the announced start. Remainders of batched rows come from an estimated quotient, which
is exact or one too small.
-/
namespace RowReduction.Row

namespace Batches

/-- The estimate `x * (2 ^ 16 / p) / 2 ^ 16` of `x / p` is exact or one too small. -/
theorem estimate_bounds {p x : Nat} (positive : 0 < p) (small : x < 65536) :
    x * (65536 / p) / 65536 * p ≤ x ∧ x < x * (65536 / p) / 65536 * p + 2 * p := by
  have reciprocal := Nat.div_mul_le_self 65536 p
  have rounded := Nat.lt_div_mul_add (a := 65536) positive
  generalize 65536 / p = m at *
  have lower := Nat.div_mul_le_self (x * m) 65536
  have upper := Nat.lt_div_mul_add (a := x * m) (b := 65536) (by decide)
  generalize x * m / 65536 = q at *
  constructor
  · have scaled : q * p * 65536 ≤ x * 65536 := by
      calc q * p * 65536 = q * 65536 * p := by ring
        _ ≤ x * m * p := Nat.mul_le_mul_right p lower
        _ = x * (m * p) := Nat.mul_assoc x m p
        _ ≤ x * 65536 := Nat.mul_le_mul_left x reciprocal
    exact Nat.le_of_mul_le_mul_right scaled (by decide)
  · have scaled : x * 65536 < (q * p + 2 * p) * 65536 := by
      calc x * 65536 ≤ x * (m * p + p) := Nat.mul_le_mul_left x (Nat.le_of_lt rounded)
        _ = x * m * p + x * p := by ring
        _ < (q * 65536 + 65536) * p + 65536 * p := by
          apply Nat.add_lt_add
          · exact Nat.mul_lt_mul_of_pos_right upper positive
          · exact Nat.mul_lt_mul_of_pos_right small positive
        _ = (q * p + 2 * p) * 65536 := by ring
    exact Nat.lt_of_mul_lt_mul_right scaled

theorem toNat_reciprocal (p : UInt32) : (reciprocal p).toNat = 65536 / p.toNat := by
  simp [reciprocal]

/-- The product with the reciprocal fits in a word. -/
theorem product_lt {p x : UInt32} (positive : 2 ≤ p.toNat) (small : x.toNat < 65536) :
    x.toNat * (reciprocal p).toNat < 2 ^ 32 := by
  have half : 65536 / p.toNat ≤ 32768 := Nat.div_le_of_le_mul (by omega)
  rw [toNat_reciprocal]
  calc x.toNat * (65536 / p.toNat) ≤ 65536 * 32768 := Nat.mul_le_mul (Nat.le_of_lt small) half
    _ < 2 ^ 32 := by decide

theorem toNat_quotientEstimate {p x : UInt32} (positive : 2 ≤ p.toNat)
    (small : x.toNat < 65536) :
    (quotientEstimate p x).toNat = x.toNat * (65536 / p.toNat) / 65536 := by
  rw [quotientEstimate, UInt32.toNat_shiftRight, UInt32.toNat_mul,
    Nat.mod_eq_of_lt (product_lt positive small), toNat_reciprocal]
  simp [Nat.shiftRight_eq_div_pow]

theorem toNat_reduce {p x : UInt32} (positive : 2 ≤ p.toNat) (small : x.toNat < 65536) :
    (reduce p x).toNat = x.toNat % p.toNat := by
  obtain ⟨lower, upper⟩ := estimate_bounds (p := p.toNat) (by omega) small
  have estimate := toNat_quotientEstimate positive small
  generalize x.toNat * (65536 / p.toNat) / 65536 = q at *
  have multiple : (quotientEstimate p x * p).toNat = q * p.toNat := by
    rw [UInt32.toNat_mul, estimate, Nat.mod_eq_of_lt (by omega)]
  have remainder : (x - quotientEstimate p x * p).toNat = x.toNat - q * p.toNat := by
    have below : quotientEstimate p x * p ≤ x := by
      rw [UInt32.le_iff_toNat_le, multiple]
      exact lower
    rw [UInt32.toNat_sub_of_le _ _ below, multiple]
  have split_value : x.toNat = x.toNat - q * p.toNat + q * p.toNat := by omega
  have value : x.toNat % p.toNat = (x.toNat - q * p.toNat) % p.toNat := by
    rw [split_value, Nat.add_mul_mod_self_right, Nat.add_sub_cancel]
  rw [value, reduce]
  split
  · rename_i large
    have above : p.toNat ≤ x.toNat - q * p.toNat := by
      rw [← remainder]
      exact UInt32.le_iff_toNat_le.mp large
    rw [UInt32.toNat_sub_of_le _ _ large, remainder, Nat.mod_eq_sub_mod above,
      Nat.mod_eq_of_lt (by omega)]
  · rename_i small
    have under : x.toNat - q * p.toNat < p.toNat := by
      rw [← remainder]
      exact Nat.lt_of_not_le fun above => small (UInt32.le_iff_toNat_le.mpr above)
    rw [remainder, Nat.mod_eq_of_lt under]

end Batches

/-- The first column that takes part in a sum of rows with a given start. -/
def firstSummed (e : Encoding) (start columns : Nat) : Nat :=
  match e with
  | .generic => start
  | .batched => Batches.batchStart start columns
  | .packed => start / Bits.wordSize * Bits.wordSize

theorem firstSummed_le (e : Encoding) (start columns : Nat) :
    firstSummed e start columns ≤ start := by
  cases e with
  | generic => exact Nat.le_refl _
  | batched =>
    exact Nat.le_trans (Nat.div_mul_le_self _ _) (Nat.min_le_left _ _)
  | packed => exact Nat.div_mul_le_self _ _

variable {e : Encoding} {p : SmallPrime} {columns : Nat} {target source : Row e}

/-- A reduced coefficient times a residue plus a residue fits in 16 bits. -/
theorem sum_lt {c t s : Nat} (hc : c < p.val) (ht : t < p.val) (hs : s < p.val) :
    t + c * s < 65536 := by
  have bound := p.le_251
  have product : c * s ≤ 250 * 250 := Nat.mul_le_mul (by omega) (by omega)
  omega

theorem size_accumulate (e : Encoding) (p : SmallPrime) (target source : Row e)
    (c start columns : Nat) :
    (accumulate e p target source c start columns).size = target.size := by
  cases e <;> simp [accumulate, Bytes.accumulate, Batches.accumulate, Bits.add]

theorem entries_outside (ht : Sound e p columns target) (hs : Sound e p columns source)
    {c start j : Nat} (outside : target.size ≤ j / e.lanes) :
    entry e (accumulate e p target source c start columns) j = 0 ∧ entry e target j = 0 ∧
      entry e source j = 0 := by
  have sizes : source.size = target.size := hs.size.trans ht.size.symm
  refine ⟨entry_outside ?_, entry_outside outside, entry_outside ?_⟩
  · rw [size_accumulate]
    exact outside
  · rw [sizes]
    exact outside

theorem getD_mapIdx {α : Type} (r : Array α) (f : Nat → α → α) (j : Nat) (d : α) :
    (r.mapIdx f).getD j d = if j < r.size then f j (r.getD j d) else d := by
  by_cases inside : j < r.size
  · simp [Array.getD, inside]
  · simp [Array.getD, inside]

theorem entry_accumulate_generic {target source : Row .generic}
    (ht : Sound .generic p columns target) (hs : Sound .generic p columns source)
    (c start j : Nat) :
    entry .generic (accumulate .generic p target source c start columns) j =
      if start ≤ j then (entry .generic target j + c * entry .generic source j) % p.val
      else entry .generic target j := by
  have residue := Nat.mod_lt (entry .generic target j + c * entry .generic source j) p.pos
  have bound := p.le_251
  have room := Encoding.columns_le_rowCells ht.narrow
  rw [← ht.size] at room
  simp only [Encoding.lanes, Nat.mul_one] at room
  by_cases inside : j < columns
  · simp only [entry_generic, accumulate, Bytes.accumulate, getD_mapIdx] at residue ⊢
    rw [if_pos (Nat.lt_of_lt_of_le inside room)]
    by_cases summed : start ≤ j
    · rw [if_pos ⟨summed, inside⟩, if_pos summed, UInt8.toNat_ofNat', SmallPrime.reduce]
      exact Nat.mod_eq_of_lt (by omega)
    · rw [if_neg fun h => summed h.1, if_neg summed]
  · have empty := ht.padding j (Nat.le_of_not_lt inside)
    rw [empty, hs.padding j (Nat.le_of_not_lt inside)]
    simp only [entry_generic, accumulate, Bytes.accumulate, getD_mapIdx] at empty ⊢
    by_cases stored : j < target.size
    · rw [if_pos stored, if_neg fun h => inside h.2, empty]
      simp
    · rw [if_neg stored]
      simp

theorem entry_accumulate_batched {target source : Row .batched}
    (ht : Sound .batched p columns target) (hs : Sound .batched p columns source) {c : Nat}
    (hc : c < p.val) (start j : Nat) :
    entry .batched (accumulate .batched p target source c start columns) j =
      if Batches.batchStart start columns ≤ j then
        (entry .batched target j + c * entry .batched source j) % p.val
      else entry .batched target j := by
  have bound := p.le_251
  have two := p.two_le
  have tj := ht.reduced j
  have sj := hs.reduced j
  have fits := sum_lt hc tj sj
  have residue := Nat.mod_lt (entry .batched target j + c * entry .batched source j) p.pos
  by_cases inside : j < target.size
  · simp only [entry_batched, accumulate, Batches.accumulate, getD_mapIdx, if_pos inside]
      at tj sj fits residue ⊢
    have modulus : (UInt32.ofNat p.val).toNat = p.val :=
      UInt32.toNat_ofNat_of_lt' (by simp only [UInt32.size]; omega)
    have factor : (UInt32.ofNat c).toNat = c :=
      UInt32.toNat_ofNat_of_lt' (by simp only [UInt32.size]; omega)
    have total : ((target.getD j 0).toUInt32 + UInt32.ofNat c * (source.getD j 0).toUInt32).toNat =
        (target.getD j 0).toNat + c * (source.getD j 0).toNat := by
      rw [UInt32.toNat_add, UInt32.toNat_mul, factor, UInt8.toNat_toUInt32, UInt8.toNat_toUInt32,
        Nat.mod_eq_of_lt (show c * (source.getD j 0).toNat < 2 ^ 32 by omega),
        Nat.mod_eq_of_lt (by omega)]
    by_cases summed : Batches.batchStart start columns ≤ j
    · rw [if_pos summed, if_pos summed, UInt32.toNat_toUInt8,
        Batches.toNat_reduce (by omega) (by omega), total, modulus]
      exact Nat.mod_eq_of_lt (by omega)
    · rw [if_neg summed, if_neg summed]
  · have outside : target.size ≤ j / Encoding.batched.lanes := by
      simp only [Encoding.lanes, Nat.div_one]
      omega
    obtain ⟨sum, left, right⟩ := entries_outside ht hs outside
    rw [sum, left, right]
    simp

theorem entry_accumulate_packed {target source : Row .packed}
    (ht : Sound .packed p columns target) (hs : Sound .packed p columns source) {c : Nat}
    (nonzero : c ≠ 0) (hc : c < p.val) (start j : Nat) :
    entry .packed (accumulate .packed p target source c start columns) j =
      if start / Bits.wordSize * Bits.wordSize ≤ j then
        (entry .packed target j + c * entry .packed source j) % p.val
      else entry .packed target j := by
  have two : p.val = 2 := by simpa [Encoding.canStore] using ht.supported
  have one : c = 1 := by omega
  have lane : j % 64 < 64 := Nat.mod_lt j (by decide)
  have touched : start / Bits.wordSize ≤ j / 64 ↔ start / Bits.wordSize * Bits.wordSize ≤ j :=
    Nat.le_div_iff_mul_le (show 0 < 64 by decide)
  have read (r : Row .packed) : entry .packed r j =
      ((r.getD (j / 64) (0 : UInt64)).toBitVec.getLsbD (j % 64)).toNat :=
    Encoding.readLane_packed _ lane
  rw [two, one, Nat.one_mul]
  by_cases inside : j / 64 < target.size
  · rw [read, read, read]
    simp only [accumulate, Bits.add, getD_mapIdx, if_pos inside]
    by_cases summed : start / Bits.wordSize ≤ j / 64
    · rw [if_pos summed, if_pos (touched.mp summed), UInt64.toBitVec_xor, BitVec.getLsbD_xor]
      cases (target.getD (j / 64) (0 : UInt64)).toBitVec.getLsbD (j % 64) <;>
        cases (source.getD (j / 64) (0 : UInt64)).toBitVec.getLsbD (j % 64) <;> rfl
    · rw [if_neg summed, if_neg (mt touched.mpr summed)]
  · have outside : target.size ≤ j / Encoding.packed.lanes := Nat.le_of_not_lt inside
    obtain ⟨sum, left, right⟩ := entries_outside ht hs outside
    rw [sum, left, right]
    simp

/-- What a sum of sound rows holds in column `j`, whatever the source row holds before `start`. -/
theorem entry_accumulate (ht : Sound e p columns target) (hs : Sound e p columns source)
    {c : Nat} (nonzero : c ≠ 0) (hc : c < p.val) (start j : Nat) :
    entry e (accumulate e p target source c start columns) j =
      if firstSummed e start columns ≤ j then (entry e target j + c * entry e source j) % p.val
      else entry e target j := by
  cases e with
  | generic => exact entry_accumulate_generic ht hs c start j
  | batched => exact entry_accumulate_batched ht hs hc start j
  | packed => exact entry_accumulate_packed ht hs nonzero hc start j

theorem sound_accumulate (ht : Sound e p columns target) (hs : Sound e p columns source)
    {c : Nat} (nonzero : c ≠ 0) (hc : c < p.val) (start : Nat) :
    Sound e p columns (accumulate e p target source c start columns) where
  supported := ht.supported
  narrow := ht.narrow
  size := (size_accumulate ..).trans ht.size
  reduced j := by
    rw [entry_accumulate ht hs nonzero hc]
    split
    · exact Nat.mod_lt _ p.pos
    · exact ht.reduced j
  padding j outside := by
    rw [entry_accumulate ht hs nonzero hc, ht.padding j outside, hs.padding j outside]
    simp

/-- Nothing is lost before the start column if the source row is zero there. -/
theorem entry_accumulate_of_zero (ht : Sound e p columns target) (hs : Sound e p columns source)
    {c : Nat} (nonzero : c ≠ 0) (hc : c < p.val) {start : Nat}
    (zero : ∀ j, j < start → entry e source j = 0) (j : Nat) :
    entry e (accumulate e p target source c start columns) j =
      (entry e target j + c * entry e source j) % p.val := by
  rw [entry_accumulate ht hs nonzero hc]
  split
  · rfl
  · rename_i skipped
    have before : j < start := by
      have := firstSummed_le e start columns
      omega
    rw [zero j before, Nat.mul_zero, Nat.add_zero, Nat.mod_eq_of_lt (ht.reduced j)]

end RowReduction.Row
