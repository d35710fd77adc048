import Mathlib
import RowReduction.Proofs.Decoding
import RowReduction.Proofs.ObtainedBases

/-!
The byte format of a basis. The coefficients of the pivots are not written, and their columns are
written although the image determines them, so a reader computes the first and checks the second.
Every basis whose pivots are those of its rows is read back as it was, whatever follows its bytes,
and no other bytes are read as that basis.
-/
namespace RowReduction

variable {e : Encoding} {p : SmallPrime}

theorem Binary.lift_eq_pure {α : Type} {checked : Checked α} {input rest : List UInt8} {a : α} :
    (liftM checked : Decoder α) input = pure (a, rest) ↔ checked = .ok a ∧ rest = input := by
  constructor
  · intro read
    cases checked with
    | error v => cases read
    | ok _ =>
      cases read
      exact ⟨rfl, rfl⟩
  · rintro ⟨ok, rfl⟩
    exact reads_lift ok rest

open Binary

namespace PivotBasis

variable [Storage.Memory] {b : PivotBasis (RowMatrix e)} {image : RowMatrix e} {r n : Nat}

/-- The bytes that were read as pivots are the columns of these. -/
theorem bytes_of_takePivots (h : image.Shaped p r n) {remaining start : Nat}
    {input rest : List UInt8} {pivots : List Pivot} (room : start + remaining ≤ r)
    (taken : takePivots image remaining start input = pure (pivots, rest)) :
    input = (pivots.map (·.column)).flatMap word ++ rest := by
  induction remaining generalizing start input pivots with
  | zero =>
    cases taken
    rfl
  | succ remaining ih =>
    rw [takePivots_succ h (by omega), bind_eq_pure] at taken
    obtain ⟨⟨column, later⟩, column_read, taken⟩ := taken
    obtain ⟨-, rfl⟩ := takeWord_eq_pure.mp column_read
    cases found : pivotOf (image.vec p n start) start with
    | none =>
      rw [found] at taken
      cases taken
    | some pivot =>
      rw [found] at taken
      dsimp only at taken
      split at taken
      · rename_i same
        obtain ⟨⟨others, _⟩, others_read, result⟩ := bind_eq_pure.mp taken
        cases result
        rw [List.map_cons, List.flatMap_cons, List.append_assoc, same]
        exact congrArg (word column ++ ·) (ih (by omega) others_read)
      · cases taken

theorem bytes_of_decode {input rest : List UInt8} (read : decode p input = pure (b, rest)) :
    input = b.encode ++ rest := by
  simp only [decode, run_bind_eq_pure] at read
  obtain ⟨image, _, image_read, combinations, _, combinations_read, read⟩ := read
  split at read
  · rw [run_bind_eq_pure] at read
    obtain ⟨_, _, stopped, _⟩ := read
    cases stopped
  · simp only [run_bind_eq_pure] at read
    obtain ⟨_, _, fits, pivots, _, taken, result⟩ := read
    cases result
    obtain ⟨-, rfl⟩ := lift_eq_pure.mp fits
    have columns := bytes_of_takePivots (RowMatrix.Shaped.of_decode image_read)
      (Nat.zero_add _).le taken
    rw [RowMatrix.bytes_of_decode image_read, RowMatrix.bytes_of_decode combinations_read, columns,
      encode, pivotColumns]
    simp only [List.append_assoc]

theorem prime_of_decode {input rest : List UInt8} (read : decode p input = pure (b, rest)) :
    b.prime = p :=
  (Shaped.of_decode read).image.prime

end PivotBasis

namespace EncodedBasis

section

variable [Storage.Memory] {b : EncodedBasis}

/-- Reading accepts exactly what is written of a basis with the pivots of its rows. -/
theorem decode_eq_pure_iff {input rest : List UInt8} :
    decode input = pure (b, rest) ↔ b.Valid ∧ input = b.encode ++ rest := by
  constructor
  · intro read
    refine ⟨valid_of_decode read, ?_⟩
    obtain ⟨p, later, -, rfl, basis_read⟩ := decode_eq_pure read
    rw [PivotBasis.bytes_of_decode basis_read, encode, prime, PivotBasis.prime_of_decode basis_read]
    rfl
  · rintro ⟨valid, rfl⟩
    exact reads_decode valid rest

/-- A basis that a split answers with is read back from its bytes, and the bytes that are read as a
basis are those that it is written as. -/
theorem format_canonical :
    (∀ (m : EncodedMatrix) (wanted : Wanted) (pacer : Pacer) (state : EncodedMatrix × Pacer)
      (d : EncodedSplitting) (b : EncodedBasis), Reachable m →
        m.split wanted pacer = .ok ⟨state, .ok d⟩ → d.basis = some b →
          ∀ tail, decode (b.encode ++ tail) = pure (b, tail)) ∧
    ∀ (b : EncodedBasis) (input rest : List UInt8), decode input = pure (b, rest) →
      input = b.encode ++ rest := by
  refine ⟨?_, ?_⟩
  · intro m wanted pacer state d b reachable call answered tail
    have valid : b.Valid := (Computed.splitEncoded reachable call answered).valid.1
    exact decode_eq_pure_iff.mpr ⟨valid, rfl⟩
  · intro b input rest read
    exact (decode_eq_pure_iff.mp read).2

end

/-- The second row is twice the first, and the pivot column of the third comes before that of the
first. Two more bytes follow those of the basis. -/
theorem format_canonical_of_sample :
    let p : SmallPrime := ⟨3, by decide, by decide⟩
    let rows := RowMatrix.tabulate .batched p 3 2 fun i j =>
      if i = 0 then j else if i = 1 then 2 * j else 1
    let b : EncodedBasis := ⟨.batched,
      .tabulate .batched p 2 2 fun i j => if i = j then 0 else 1,
      .tabulate .batched p 2 3 fun i j => if i = 1 then j + 2 else if j = 0 then 1 else 0,
      [⟨0, 1, 2⟩, ⟨1, 0, 2⟩]⟩
    let bytes : List UInt8 := [3, 1] ++ (word 2 ++ word 2 ++ [0, 1, 1, 0]) ++
      (word 2 ++ word 3 ++ [1, 0, 0, 2, 0, 1]) ++ (word 1 ++ word 0)
    Reachable ⟨.batched, rows⟩ ∧
    (∃ state d, EncodedMatrix.split ⟨.batched, rows⟩ .everything .standard =
      .ok ⟨state, .ok d⟩ ∧ d.basis = some b) ∧
    decode (b.encode ++ [7, 8]) = pure (b, [7, 8]) ∧
    decode (bytes ++ [7, 8]) = pure (b, [7, 8]) ∧ bytes ++ [7, 8] = b.encode ++ [7, 8] := by
  intro p rows b bytes
  have shaped : rows.Shaped p 3 2 :=
    RowMatrix.tabulate_shaped (by decide) (by decide) (by decide) (by decide) _
  have reachable : Reachable ⟨.batched, rows⟩ := shaped.wellFormed.reachable
  have computed : (match EncodedMatrix.split ⟨.batched, rows⟩ .everything .standard with
    | .ok ⟨_, .ok d⟩ => d.basis
    | _ => none) = some b := by decide +kernel
  split at computed
  · rename_i state d call
    have written := format_canonical.1 _ _ _ _ _ _ reachable call computed [7, 8]
    have same : b.encode = bytes := by decide +kernel
    have taken : decode (bytes ++ [7, 8]) = pure (b, [7, 8]) := same ▸ written
    exact ⟨reachable, ⟨state, d, call, computed⟩, written, taken, format_canonical.2 b _ _ taken⟩
  · cases computed

end EncodedBasis

end RowReduction
