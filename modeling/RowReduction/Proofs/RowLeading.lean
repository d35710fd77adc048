import Mathlib
import RowReduction.Proofs.Rows

/-!
The search for the first nonzero entry of a padded row. The three encodings skip zeros by the
byte, by the batch or by the word, and all of them find the least nonzero column, because nothing
stands in the padding.
-/
namespace RowReduction.Row

/-- What an answer of the search says about a row. -/
def LeadsAt (e : Encoding) (r : Row e) : Option (Nat × Nat) → Prop
  | none => ∀ j, entry e r j = 0
  | some (j, x) => entry e r j = x ∧ x ≠ 0 ∧ ∀ k, k < j → entry e r k = 0

theorem findSome?_range {β : Type} {f : Nat → Option β} {n : Nat} {b : β}
    (found : (List.range n).findSome? f = some b) :
    ∃ i, i < n ∧ f i = some b ∧ ∀ j, j < i → f j = none := by
  induction n with
  | zero => simp at found
  | succ n ih =>
    rw [List.range_succ, List.findSome?_append] at found
    cases earlier : (List.range n).findSome? f with
    | some c =>
      rw [earlier, Option.some_or] at found
      obtain ⟨i, hi, answer, silent⟩ := ih (earlier.trans found)
      exact ⟨i, Nat.lt_succ_of_lt hi, answer, silent⟩
    | none =>
      rw [earlier, Option.none_or] at found
      refine ⟨n, Nat.lt_succ_self n, by simpa using found, ?_⟩
      intro j hj
      exact List.findSome?_eq_none_iff.mp earlier j (List.mem_range.mpr hj)

variable {p : SmallPrime} {columns : Nat}

theorem toNat_ne_zero {b : UInt8} : b.toNat ≠ 0 ↔ b ≠ 0 := by
  rw [Ne, ← UInt8.toNat_zero, UInt8.toNat_inj]

theorem leading_generic {r : Row .generic} (sound : Sound .generic p columns r) :
    LeadsAt .generic r (leading .generic r columns) := by
  simp only [leading, Bytes.leading]
  cases found : (List.range columns).find? fun j => r.getD j (0 : UInt8) != 0 with
  | none =>
    intro j
    by_cases inside : j < columns
    · have zero : r.getD j (0 : UInt8) = 0 := by
        simpa using List.find?_range_eq_none.mp found j inside
      rw [entry_generic, zero]
      rfl
    · exact sound.padding j (Nat.le_of_not_lt inside)
  | some j =>
    obtain ⟨nonzero, _, earlier⟩ := List.find?_range_eq_some.mp found
    refine ⟨entry_generic r j, ?_, ?_⟩
    · exact toNat_ne_zero.mpr (by simpa using nonzero)
    · intro k hk
      have zero : r.getD k (0 : UInt8) = 0 := by simpa using earlier k hk
      rw [entry_generic, zero]
      rfl

/-- A batch is passed over exactly if all of its entries are zero. -/
theorem batchUnion_eq_zero (r : Array UInt8) (b : Nat) :
    Batches.batchUnion r b = 0 ↔
      ∀ k, k < Batches.batchSize → r.getD (b * Batches.batchSize + k) 0 = 0 := by
  have union (n : Nat) (start : UInt8) :
      (List.range n).foldl (fun acc k => acc ||| r.getD (b * Batches.batchSize + k) 0) start = 0 ↔
        start = 0 ∧ ∀ k, k < n → r.getD (b * Batches.batchSize + k) 0 = 0 := by
    induction n with
    | zero => simp
    | succ n ih =>
      rw [List.range_succ, List.foldl_append, List.foldl_cons, List.foldl_nil,
        UInt8.or_eq_zero_iff, ih]
      constructor
      · rintro ⟨⟨first, before⟩, last⟩
        refine ⟨first, fun k hk => ?_⟩
        rcases Nat.lt_succ_iff_lt_or_eq.mp hk with earlier | rfl
        · exact before k earlier
        · exact last
      · rintro ⟨first, all⟩
        exact ⟨⟨first, fun k hk => all k (Nat.lt_succ_of_lt hk)⟩, all n (Nat.lt_succ_self n)⟩
  rw [Batches.batchUnion, union]
  exact and_iff_right rfl

theorem batch_leads (r : Array UInt8) (b : Nat) (answer : Option (Nat × Nat))
    (searched : (if Batches.batchUnion r b = 0 then none
      else ((List.range Batches.batchSize).find? fun k =>
        r.getD (b * Batches.batchSize + k) 0 != 0).map fun k =>
          (b * Batches.batchSize + k, (r.getD (b * Batches.batchSize + k) 0).toNat)) = answer) :
    match answer with
    | none => ∀ k, k < Batches.batchSize → r.getD (b * Batches.batchSize + k) 0 = 0
    | some (j, x) => ∃ k, k < Batches.batchSize ∧ j = b * Batches.batchSize + k ∧
        x = (r.getD j 0).toNat ∧ x ≠ 0 ∧
        ∀ i, i < k → r.getD (b * Batches.batchSize + i) 0 = 0 := by
  split at searched
  · rename_i empty
    subst searched
    intro k hk
    exact (batchUnion_eq_zero r b).mp empty k hk
  · rename_i inhabited
    rcases Option.eq_none_or_eq_some ((List.range Batches.batchSize).find? fun k =>
        r.getD (b * Batches.batchSize + k) 0 != 0) with found | ⟨k, found⟩
    · rw [found] at searched
      subst searched
      intro k hk
      simpa using List.find?_range_eq_none.mp found k hk
    · rw [found] at searched
      subst searched
      obtain ⟨nonzero, inside, earlier⟩ := List.find?_range_eq_some.mp found
      refine ⟨k, List.mem_range.mp inside, rfl, rfl, toNat_ne_zero.mpr (by simpa using nonzero), ?_⟩
      intro i hi
      simpa using earlier i hi

theorem leading_batched {r : Row .batched} (sound : Sound .batched p columns r) :
    LeadsAt .batched r (leading .batched r columns) := by
  have whole : Batches.batchSize ∣ Array.size r := by
    rw [sound.size]
    exact (align_of_lt (by decide) sound.narrow).2
  have batches := Nat.div_mul_cancel whole
  have position (j : Nat) : j / 32 * Batches.batchSize + j % 32 = j := Nat.div_add_mod' j 32
  have lane (j : Nat) : j % 32 < Batches.batchSize := Nat.mod_lt j (by decide)
  simp only [leading, Batches.leading]
  generalize answered : (List.range (Array.size r / Batches.batchSize)).findSome? _ = answer
  cases answer with
  | none =>
    intro j
    rw [entry_batched]
    by_cases stored : j < Array.size r
    · have inside : j / 32 ∈ List.range (Array.size r / Batches.batchSize) := by
        rw [List.mem_range]
        exact Nat.div_lt_div_of_lt_of_dvd whole stored
      have empty := batch_leads r (j / 32) none (List.findSome?_eq_none_iff.mp answered _ inside)
      have zero := empty (j % 32) (lane j)
      rw [position] at zero
      rw [zero]
      rfl
    · rw [Array.getD, dif_neg stored]
      rfl
  | some lead =>
    obtain ⟨j, x⟩ := lead
    obtain ⟨b, _, answer, silent⟩ := findSome?_range answered
    obtain ⟨k, hk, rfl, rfl, nonzero, before⟩ := batch_leads r b _ answer
    refine ⟨entry_batched r _, nonzero, ?_⟩
    intro i hi
    rw [entry_batched]
    have zero : r.getD (i / 32 * Batches.batchSize + i % 32) (0 : UInt8) = 0 := by
      have split_i := position i
      simp only [Batches.batchSize] at hk hi split_i
      by_cases same : i / 32 = b
      · rw [same]
        exact before _ (by omega)
      · exact batch_leads r _ none (silent _ (by omega)) _ (lane i)
    rw [position] at zero
    rw [zero]
    rfl

theorem getElem_bitsOf (w : UInt64) {i : Nat} (hi : i < (Bits.bitsOf w).length) :
    (Bits.bitsOf w)[i] = Encoding.readLane .packed w i := by
  simp only [Bits.bitsOf, List.getElem_map, List.getElem_range]
  rfl

theorem length_bitsOf (w : UInt64) : (Bits.bitsOf w).length = 64 := by
  simp [Bits.bitsOf, Bits.wordSize]

/-- What the lowest set bit says about the lanes of a word. -/
theorem lowestBit_leads (w : UInt64) :
    match Bits.lowestBit w with
    | none => w = 0
    | some b => b < 64 ∧ Encoding.readLane .packed w b = 1 ∧
        ∀ i, i < b → Encoding.readLane .packed w i = 0 := by
  unfold Bits.lowestBit
  generalize found : (Bits.bitsOf w).findIdx? (· != 0) = answer
  cases answer with
  | none =>
    apply Encoding.cell_ext (e := .packed)
    intro i hi
    have stored : i < (Bits.bitsOf w).length := by
      rw [length_bitsOf]
      exact hi
    have zero := List.findIdx?_eq_none_iff.mp found _ (List.getElem_mem stored)
    rw [getElem_bitsOf] at zero
    rw [show (0 : UInt64) = Encoding.zeroCell .packed from rfl, readLane_zeroCell]
    simpa using zero
  | some b =>
    obtain ⟨stored, nonzero, before⟩ := List.findIdx?_eq_some_iff_getElem.mp found
    have inside : b < 64 := by
      rw [length_bitsOf] at stored
      exact stored
    rw [getElem_bitsOf, Encoding.readLane_packed w inside] at nonzero
    refine ⟨inside, ?_, ?_⟩
    · rw [Encoding.readLane_packed w inside]
      cases bit : w.toBitVec.getLsbD b with
      | true => rfl
      | false => simp [bit] at nonzero
    · intro i hi
      have zero := before i hi
      rw [getElem_bitsOf] at zero
      simpa using zero

theorem entry_packed (r : Row .packed) (j : Nat) :
    entry .packed r j = Encoding.readLane .packed (r.getD (j / 64) (0 : UInt64)) (j % 64) := rfl

theorem entry_of_zero_word {r : Row .packed} {j : Nat}
    (zero : ∀ stored : j / 64 < Array.size r, r[j / 64] = (0 : UInt64)) :
    entry .packed r j = 0 := by
  by_cases stored : j / 64 < Array.size r
  · have word : Array.getD r (j / 64) (0 : UInt64) = 0 := by
      rw [Array.getD, dif_pos stored]
      exact zero stored
    rw [entry_packed, word]
    exact readLane_zeroCell .packed _
  · exact entry_outside (Nat.le_of_not_lt stored)

theorem leading_packed (r : Row .packed) : LeadsAt .packed r (leading .packed r columns) := by
  simp only [leading, Bits.leading]
  generalize found : Array.findIdx? (fun w : UInt64 => w != 0) r = answer
  cases answer with
  | none =>
    intro j
    apply entry_of_zero_word
    intro stored
    simpa using Array.findIdx?_eq_none_iff.mp found _ (Array.getElem_mem stored)
  | some k =>
    obtain ⟨stored, nonzero, before⟩ := Array.findIdx?_eq_some_iff_getElem.mp found
    have word : Array.getD r k (0 : UInt64) = r[k] := by simp [Array.getD, stored]
    have lowest := lowestBit_leads r[k]
    rw [Option.bind_some, word]
    generalize Bits.lowestBit r[k] = bit at lowest ⊢
    cases bit with
    | none =>
      rw [lowest] at nonzero
      simp at nonzero
    | some b =>
      obtain ⟨inside, lit, dark⟩ := lowest
      have cell : (k * 64 + b) / 64 = k := by omega
      have lane : (k * 64 + b) % 64 = b := by omega
      refine ⟨?_, Nat.one_ne_zero, ?_⟩
      · rw [entry_packed]
        simp only [Bits.wordSize, cell, lane, word, lit]
      · intro i hi
        simp only [Bits.wordSize] at hi
        by_cases same : i / 64 = k
        · rw [entry_packed, same, word]
          exact dark _ (by omega)
        · apply entry_of_zero_word
          intro _
          simpa using before (i / 64) (by omega)

/-- The search finds the least nonzero column in every encoding. -/
theorem leading_leads {e : Encoding} {r : Row e} (sound : Sound e p columns r) :
    LeadsAt e r (leading e r columns) := by
  cases e with
  | generic => exact leading_generic sound
  | batched => exact leading_batched sound
  | packed => exact leading_packed r

end RowReduction.Row
