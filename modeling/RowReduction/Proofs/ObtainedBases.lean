import Mathlib
import RowReduction.Proofs.Reachable
import RowReduction.Proofs.RowSpace
import RowReduction.Proofs.Survivors

/-!
The bases that a program can have. A basis that was computed is in echelon form, and a copy of it in
another encoding is too. A basis that was read from bytes has the first nonzero column of each row
as its pivot, but nothing is checked of two rows together. If no row has an entry in the pivot
column of a row before it, reducing by the basis is right; otherwise a later row can fill a column
that was cleared already.
-/
namespace RowReduction

open EchelonForm

variable {e f : Encoding} {p : SmallPrime} {k m n r : Nat}

section

variable [Storage.Memory]

namespace PivotBasis

variable {b : PivotBasis (RowMatrix e)} {image : RowMatrix e}

/-- Every pivot that is read is the one of its row. -/
theorem takePivots_found (h : image.Shaped p r n) {remaining start : Nat} {input rest : List UInt8}
    {pivots : List Pivot} (room : start + remaining ≤ r)
    (read : takePivots image remaining start input = pure (pivots, rest)) :
    pivots.length = remaining ∧ ∀ t pivot, pivots[t]? = some pivot →
      pivotOf (image.vec p n (start + t)) (start + t) = some pivot := by
  induction remaining generalizing start input rest pivots with
  | zero =>
    cases read
    exact ⟨rfl, by simp⟩
  | succ remaining ih =>
    rw [takePivots_succ h (by omega), bind_eq_pure] at read
    obtain ⟨⟨column, input⟩, _, read⟩ := read
    cases found : pivotOf (image.vec p n start) start with
    | none =>
      rw [found] at read
      cases read
    | some pivot =>
      rw [found] at read
      dsimp only at read
      split at read
      · obtain ⟨⟨later, _⟩, others, result⟩ := bind_eq_pure.mp read
        cases result
        obtain ⟨length, places⟩ := ih (by omega) others
        refine ⟨congrArg Nat.succ length, ?_⟩
        intro t other place
        cases t with
        | zero =>
          cases place
          exact found
        | succ t =>
          have row := places t other place
          rwa [Nat.add_right_comm, Nat.add_assoc] at row
      · cases read

theorem Shaped.of_decode {input rest : List UInt8} (read : decode p input = pure (b, rest)) :
    b.Shaped p b.image.rows b.image.columns b.combinations.columns := by
  simp only [decode, Binary.run_bind_eq_pure] at read
  obtain ⟨image, _, image_read, combinations, _, combinations_read, read⟩ := read
  have hi := RowMatrix.Shaped.of_decode image_read
  have hc := RowMatrix.Shaped.of_decode combinations_read
  split at read
  · rw [Binary.run_bind_eq_pure] at read
    obtain ⟨_, _, stopped, _⟩ := read
    cases stopped
  · rename_i counts
    simp only [Binary.run_bind_eq_pure] at read
    obtain ⟨_, _, _, pivots, _, taken, result⟩ := read
    cases result
    obtain ⟨length, places⟩ := takePivots_found hi (Nat.zero_add _).le taken
    refine ⟨hi, ?_, length, ?_⟩
    · rw [← not_not.mp counts]
      exact hc
    · intro t pivot place
      have row := places t pivot place
      rwa [Nat.zero_add] at row

/-- No row has an entry in the pivot column of a row before it. -/
def RowsVanish (b : PivotBasis (RowMatrix e)) : Prop :=
  ∀ k pivot, b.pivots[k]? = some pivot →
    ∀ i, k < i → i < b.image.rows → b.image.read i pivot.column = 0

theorem Shaped.rowsVanish_iff (h : b.Shaped p r n m) :
    b.RowsVanish ↔ EchelonWithZeros (b.image.grid p r n) := by
  constructor
  · intro vanish i j later c leads
    have inside : i.val < b.pivots.length := h.length.symm ▸ i.isLt
    have place := List.getElem?_eq_getElem inside
    obtain ⟨d, leads', same⟩ := pivotOf_eq_some.mp (h.pivots i _ place)
    obtain rfl : c = d := Option.some.inj (leads.symm.trans leads')
    have zero := vanish i _ place j later (h.image.rows.symm ▸ j.isLt)
    rw [congrArg Pivot.column same] at zero
    exact (h.image.vec_eq_zero j.isLt c).mpr zero
  · intro echelon k pivot place i later inside
    rw [h.image.rows] at inside
    obtain ⟨c, leads, rfl⟩ := pivotOf_eq_some.mp (h.pivots k pivot place)
    have zero := echelon ⟨k, Nat.lt_trans later inside⟩ ⟨i, inside⟩ later c leads
    exact (h.image.vec_eq_zero inside c).mp zero

/-- A row has an entry in its own pivot column, so it has another one than the rows before it. -/
theorem Shaped.nodup_pivotColumns (h : b.Shaped p r n m) (vanish : b.RowsVanish) :
    b.pivotColumns.Nodup := by
  rw [pivotColumns, List.Nodup, List.pairwise_map, List.pairwise_iff_getElem]
  intro k i hk hi later same
  have inside : i < r := h.length ▸ hi
  obtain ⟨c, leads, pivot⟩ := pivotOf_eq_some.mp (h.pivots i _ (List.getElem?_eq_getElem hi))
  have zero := vanish k _ (List.getElem?_eq_getElem hk) i later (h.image.rows.symm ▸ inside)
  rw [same, congrArg Pivot.column pivot] at zero
  exact (lead_eq_some.mp leads).1 ((h.image.vec_eq_zero inside c).mpr zero)

/-- Rows in echelon form clear all of their pivot columns, and nothing is left of their span. -/
theorem Replays.reduced {l : RowMatrix e} {s : Reduction e} (replays : b.Replays l p k r n m s)
    (h : b.Shaped p k n m) (echelon : EchelonWithZeros (b.image.grid p k n)) {i : Nat}
    (hi : i < r) :
    (∀ c ∈ b.pivotColumns, s.residues.read i c = 0) ∧
      (s.residues.vec p n i = 0 ↔ l.vec p n i ∈ rowSpan (b.image.grid p k n)) := by
  have residue := replays.residue_eq hi
  constructor
  · intro c member
    obtain ⟨d, ⟨t, leads⟩, rfl⟩ := h.mem_pivotColumns.mp member
    have isEchelon := echelon.isEchelon
    rw [RowMatrix.ofFn_row] at isEchelon
    have row : b.image.vec p n t ∈ (List.range k).map (b.image.vec p n) :=
      List.mem_map_of_mem (List.mem_range.mpr t.isLt)
    have zero : plain (Residue p) n (s.residues.vec p n i) d = 0 := by
      rw [residue]
      exact view_reduce_lead isEchelon row leads _
    exact (replays.shaped.residues.vec_eq_zero hi d).mp zero
  · rw [residue, RowMatrix.reduce_image echelon, reduce_survivors, reduce_settled_eq_zero, rowSpan,
      RowMatrix.range_row]

end PivotBasis

/-- A basis that a split answers with, or a copy of one in another encoding. -/
inductive Computed : EncodedBasis → Prop where
  | split {e wanted pacer state d b} {m : RowMatrix e} (reachable : Reachable ⟨e, m⟩)
      (call : m.split wanted pacer = .ok ⟨state, .ok d⟩) (answered : d.basis = some b) :
      Computed ⟨e, b⟩
  | splitEncoded {m : EncodedMatrix} {wanted pacer state d b} (reachable : Reachable m)
      (call : m.split wanted pacer = .ok ⟨state, .ok d⟩) (answered : d.basis = some b) : Computed b
  | convert {b : EncodedBasis} {f c} (earlier : Computed b)
      (call : b.basis.mapBuild (RowMatrix.recode f) = pure c) : Computed ⟨f, c⟩

/-- A basis that was computed or read from bytes, or a copy of one in another encoding. -/
inductive Obtained : EncodedBasis → Prop where
  | computed {b : EncodedBasis} (computed : Computed b) : Obtained b
  | decode {e p input rest} {b : PivotBasis (RowMatrix e)}
      (call : PivotBasis.decode p input = pure (b, rest)) : Obtained ⟨e, b⟩
  | decodeEncoded {input rest b} (call : EncodedBasis.decode input = pure (b, rest)) : Obtained b
  | convert {b : EncodedBasis} {f c} (earlier : Obtained b)
      (call : b.basis.mapBuild (RowMatrix.recode f) = pure c) : Obtained ⟨f, c⟩

namespace EncodedBasis

variable {b : EncodedBasis}

/-- The pivots of the basis are those of its rows. -/
def Valid (b : EncodedBasis) : Prop :=
  b.basis.Shaped b.prime b.rank b.columns b.basis.sourceRows

theorem valid_of_shaped (h : b.basis.Shaped p r n m) : b.Valid := by
  obtain rfl : b.prime = p := h.image.prime
  obtain rfl : b.rank = r := h.length
  obtain rfl : b.columns = n := h.image.columns
  obtain rfl : b.basis.sourceRows = m := h.combinations.columns
  exact h

theorem valid_of_split {a : RowMatrix e} {wanted : Wanted} {pacer : Pacer}
    {state : RowMatrix e × Pacer} {d : Splitting (RowMatrix e)} {c : PivotBasis (RowMatrix e)}
    (wf : a.WellFormed) (call : a.split wanted pacer = .ok ⟨state, .ok d⟩)
    (answered : d.basis = some c) : (⟨e, c⟩ : EncodedBasis).Valid ∧ c.RowsVanish := by
  cases RowMatrix.split_end wf call with
  | @complete left _ splits =>
    have holds := splits.basis c answered
    have shaped := holds.basis_shaped splits.image
    refine ⟨valid_of_shaped (b := ⟨e, c⟩) shaped, shaped.rowsVanish_iff.mpr ?_⟩
    rw [holds.image]
    exact splits.image.echelon.withZeros

theorem convert_valid (valid : b.Valid) {c : PivotBasis (RowMatrix f)}
    (call : b.basis.mapBuild (RowMatrix.recode f) = pure c) :
    (⟨f, c⟩ : EncodedBasis).Valid ∧ (b.basis.RowsVanish → c.RowsVanish) := by
  obtain ⟨shaped, rows⟩ := PivotBasis.Shaped.mapBuild valid call
  refine ⟨valid_of_shaped (b := ⟨f, c⟩) shaped, ?_⟩
  rw [shaped.rowsVanish_iff, PivotBasis.Shaped.rowsVanish_iff valid, rows]
  exact id

theorem valid_of_decode {input rest : List UInt8} (read : decode input = pure (b, rest)) :
    b.Valid := by
  obtain ⟨_, _, _, _, basis_read⟩ := decode_eq_pure read
  exact valid_of_shaped (PivotBasis.Shaped.of_decode basis_read)

end EncodedBasis

/-- A computed basis is in echelon form. -/
theorem Computed.valid {b : EncodedBasis} (computed : Computed b) :
    b.Valid ∧ b.basis.RowsVanish := by
  induction computed with
  | split reachable call answered =>
    exact EncodedBasis.valid_of_split reachable.wellFormed call answered
  | splitEncoded reachable call answered =>
    simp only [EncodedMatrix.split, bind_eq_ok] at call
    obtain ⟨⟨left, answer⟩, run, result⟩ := call
    cases answer with
    | error stopped => cases result
    | ok d =>
      cases result
      obtain ⟨c, present, rfl⟩ := Option.map_eq_some_iff.mp answered
      exact EncodedBasis.valid_of_split reachable.wellFormed run present
  | convert _ call ih =>
    obtain ⟨valid, vanish⟩ := EncodedBasis.convert_valid ih.1 call
    exact ⟨valid, vanish ih.2⟩

theorem Obtained.valid {b : EncodedBasis} (obtained : Obtained b) : b.Valid := by
  induction obtained with
  | computed computed => exact computed.valid.1
  | @decode e _ _ _ b call =>
    exact EncodedBasis.valid_of_shaped (b := ⟨e, b⟩) (PivotBasis.Shaped.of_decode call)
  | decodeEncoded call => exact EncodedBasis.valid_of_decode call
  | convert _ call ih => exact (EncodedBasis.convert_valid ih call).1

/-- Every basis that a program has is in echelon form, if those that were read from bytes pass the
check that reading leaves out. The rows that it reduces then vanish in all pivot columns, and
nothing is left of exactly the rows in the span of its image. -/
theorem obtained_bases {b : EncodedBasis} (obtained : Obtained b)
    (checked : ¬ Computed b → b.basis.RowsVanish) :
    b.pivotColumns.length = b.basis.image.rows ∧ b.pivotColumns.Nodup ∧ b.basis.RowsVanish ∧
    ∀ l : RowMatrix b.encoding, l.WellFormed → l.prime = b.prime → l.columns = b.columns →
      ∀ pacer, Ends (b.basis.preimages l pacer) (¬ Fits b.encoding l.rows b.basis.sourceRows)
        (pacer.stopRow b.rank ≠ none)
        fun state _ => ∀ i, i < l.rows →
          (∀ c ∈ b.pivotColumns, state.1.read i c = 0) ∧
          (state.1.vec b.prime b.columns i = 0 ↔ l.vec b.prime b.columns i ∈
            rowSpan (b.basis.image.grid b.prime b.rank b.columns)) := by
  have valid : b.basis.Shaped b.prime b.rank b.columns b.basis.sourceRows := obtained.valid
  have vanish : b.basis.RowsVanish := by
    by_cases computed : Computed b
    · exact computed.valid.2
    · exact checked computed
  refine ⟨?_, valid.nodup_pivotColumns vanish, vanish, ?_⟩
  · exact (List.length_map _).trans valid.image.rows.symm
  · intro l wf primes widths pacer
    have hl : l.Shaped b.prime l.rows b.columns := ⟨wf, primes, rfl, widths⟩
    exact (PivotBasis.preimages_ends valid hl pacer).imp id id fun state answer replays i hi =>
      replays.reduced valid (valid.rowsVanish_iff.mp vanish) hi

end

/-- The rows of an exchange matrix, each with its pivot. -/
def exchange : PivotBasis (RowMatrix .packed) :=
  ⟨.tabulate .packed .two 2 2 fun i j => if i = j then 0 else 1,
    .tabulate .packed .two 2 4 fun i j => i + j, [⟨0, 1, 1⟩, ⟨1, 0, 1⟩]⟩

theorem exchange_image :
    exchange.image = .tabulate .packed .two 2 2 fun i j => if i = j then 0 else 1 := rfl

theorem exchange_combinations :
    exchange.combinations = .tabulate .packed .two 2 4 fun i j => i + j := rfl

theorem exchange_vec {i : Nat} (inside : i < 2) : exchange.image.vec .two 2 i =
    fun j : Fin 2 => ((if i = j.val then 0 else 1 : Nat) : Residue .two) := by
  rw [exchange_image,
    RowMatrix.vec_tabulate (by decide) (by decide) (by decide) (by decide) _ inside]

theorem exchange_pivots {i c : Fin 2} (leads : lead (exchange.image.vec .two 2 i) = some c)
    (one : exchange.image.vec .two 2 i c = 1) :
    pivotOf (exchange.image.vec .two 2 i) i = some ⟨i, c, 1⟩ := by
  rw [pivotOf_eq_some]
  refine ⟨c, leads, ?_⟩
  rw [one, inv_one]
  rfl

theorem exchange_shaped : exchange.Shaped .two 2 2 4 := by
  refine ⟨?image, ?combinations, rfl, ?pivots⟩
  case image =>
    rw [exchange_image]
    exact RowMatrix.tabulate_shaped (by decide) (by decide) (by decide) (by decide) _
  case combinations =>
    rw [exchange_combinations]
    exact RowMatrix.tabulate_shaped (by decide) (by decide) (by decide) (by decide) _
  case pivots =>
    intro k pivot place
    match k, place with
    | 0, place =>
      cases place
      exact exchange_pivots (i := 0) (c := 1) (by rw [exchange_vec (by decide)]; decide)
        (by rw [exchange_vec (by decide)]; decide)
    | 1, place =>
      cases place
      exact exchange_pivots (i := 1) (c := 0) (by rw [exchange_vec (by decide)]; decide)
        (by rw [exchange_vec (by decide)]; decide)

theorem exchange_echelon : EchelonWithZeros (exchange.image.grid .two 2 2) := by
  rw [exchange_image,
    RowMatrix.grid_tabulate (by decide) (by decide) (by decide) (by decide) _]
  unfold EchelonWithZeros
  decide +kernel

theorem obtained_bases_of_sample :
    let b : EncodedBasis := ⟨.packed, exchange⟩
    let l := RowMatrix.tabulate .packed .two 3 2 fun i j => i * j + 1
    Obtained b ∧ (¬ Computed b → b.basis.RowsVanish) ∧ b.pivotColumns.Nodup ∧
      ∀ pacer, Ends (b.basis.preimages l pacer) (¬ Fits b.encoding l.rows b.basis.sourceRows)
        (pacer.stopRow b.rank ≠ none)
        fun state _ => ∀ i, i < l.rows →
          (∀ c ∈ b.pivotColumns, state.1.read i c = 0) ∧
          (state.1.vec b.prime b.columns i = 0 ↔ l.vec b.prime b.columns i ∈
            rowSpan (b.basis.image.grid b.prime b.rank b.columns)) := by
  intro b l
  have read := EncodedBasis.reads_decode (b := b) exchange_shaped []
  have obtained : Obtained b := .decodeEncoded read
  have vanish : b.basis.RowsVanish := exchange_shaped.rowsVanish_iff.mpr exchange_echelon
  have hl : l.Shaped .two 3 2 :=
    RowMatrix.tabulate_shaped (by decide) (by decide) (by decide) (by decide) _
  obtain ⟨-, distinct, -, reduces⟩ := obtained_bases obtained fun _ => vanish
  exact ⟨obtained, fun _ => vanish, distinct,
    reduces l hl.wellFormed (hl.prime.trans exchange_shaped.image.prime.symm)
      (hl.columns.trans exchange_shaped.image.columns.symm)⟩

/-- Rows with their pivots, of which the second one fills the pivot column of the first again. -/
def refilling : PivotBasis (RowMatrix .generic) :=
  ⟨.tabulate .generic .two 3 3 fun i j =>
      if i = 0 ∧ j = 1 ∨ i = 1 ∧ j < 2 ∨ i = 2 ∧ j = 2 then 1 else 0,
    .tabulate .generic .two 3 3 fun i j => if i = j then 1 else 0,
    [⟨0, 1, 1⟩, ⟨1, 0, 1⟩, ⟨2, 2, 1⟩]⟩

/-- A row that is the sum of two rows of the image is left with an entry in a pivot column. -/
theorem obtained_basis_refills :
    let b : EncodedBasis := ⟨.generic, refilling⟩
    let l := RowMatrix.tabulate .generic .two 1 3 fun _ j => if j = 0 then 1 else 0
    let left := RowMatrix.tabulate .generic .two 1 3 fun _ j => if j = 1 then 1 else 0
    Obtained b ∧ ¬ b.basis.RowsVanish ∧
      l.vec .two 3 0 ∈ rowSpan (b.basis.image.grid .two 3 3) ∧
      b.basis.preimages l .standard = .ok ⟨(left, .standard), .ok left⟩ ∧
      1 ∈ b.pivotColumns ∧ left.read 0 1 ≠ 0 := by
  have read : EncodedBasis.decode (EncodedBasis.encode ⟨.generic, refilling⟩) =
      pure (⟨.generic, refilling⟩, []) := rfl
  refine ⟨.decodeEncoded read, ?vanish, ?member, rfl, by decide, by decide⟩
  case vanish =>
    intro vanish
    exact absurd (vanish 0 ⟨0, 1, 1⟩ rfl 1 (by decide) (by decide)) (by decide)
  case member =>
    let l := RowMatrix.tabulate .generic .two 1 3 fun _ j => if j = 0 then 1 else 0
    have sum : l.vec .two 3 0 = (refilling.image.grid .two 3 3).row 0 +
        (refilling.image.grid .two 3 3).row 1 := by
      decide +kernel
    change l.vec .two 3 0 ∈ _
    rw [sum]
    exact Submodule.add_mem _ (Submodule.subset_span (Set.mem_range_self 0))
      (Submodule.subset_span (Set.mem_range_self 1))

end RowReduction
