import Mathlib
import RowReduction.EncodedBasis
import RowReduction.Proofs.Binary
import RowReduction.Proofs.Workspace

/-!
The record of an elimination that is collected at its end: the image itself, the rows of the
change of basis that belong to the pivots, and the pivots with new row numbers. Collecting is
never refused storage, since everything it builds is no larger than what there is already. A basis
with a pivot in each row of its image is read back from its bytes, although they do not hold the
coefficients, and so is a basis that carries its encoding.
-/
namespace RowReduction.PivotBasis

variable {e : Encoding} {p : SmallPrime} {m n r : Nat}

/-- The pivots with the numbers that their rows have in the image. -/
def renumber (pivots : List Pivot) : List Pivot :=
  pivots.zipIdx.map fun (pivot, k) => { pivot with row := k }

@[simp]
theorem length_renumber (pivots : List Pivot) : (renumber pivots).length = pivots.length := by
  simp [renumber]

theorem getElem?_renumber (pivots : List Pivot) (k : Nat) :
    (renumber pivots)[k]? = pivots[k]?.map fun pivot => { pivot with row := k } := by
  simp [renumber, List.getElem?_zipIdx, Option.map_map, Function.comp_def]

theorem renumber_take (pivots : List Pivot) (k : Nat) :
    renumber (pivots.take k) = (renumber pivots).take k := by
  apply List.ext_getElem?
  intro i
  rw [getElem?_renumber, List.getElem?_take, List.getElem?_take, getElem?_renumber]
  split <;> rfl

theorem mapBuild_eq_pure {M N : Type} {convert : M → Build N} {b : PivotBasis M}
    {c : PivotBasis N} : b.mapBuild convert = pure c ↔ convert b.image = pure c.image ∧
      convert b.combinations = pure c.combinations ∧ c.pivots = b.pivots := by
  simp only [mapBuild, bind_eq_pure]
  constructor
  · rintro ⟨image, image_converted, combinations, combinations_converted, built⟩
    cases built
    exact ⟨image_converted, combinations_converted, rfl⟩
  · rintro ⟨image_converted, combinations_converted, pivots⟩
    refine ⟨c.image, image_converted, c.combinations, combinations_converted, ?_⟩
    rw [← pivots]

variable [Storage.Memory]

/-- Copying rows one after the other puts them in the order of the list, from `start` on. -/
theorem copyRows_ok {combination : RowMatrix e} (hc : combination.Shaped p m n)
    (pivots : List Pivot) {copied : RowMatrix e} (h : copied.Shaped p r n) (start : Nat)
    (room : start + pivots.length ≤ r) (inside : ∀ pivot ∈ pivots, pivot.row < m) :
    ∃ copied', (pivots.zipIdx start).foldlM (fun (copied : RowMatrix e) (pivot, k) =>
        copied.copyRowOf combination k pivot.row) copied = .ok copied' ∧
      copied'.Shaped p r n ∧ (∀ k, k < start → copied'.vec p n k = copied.vec p n k) ∧
      ∀ t pivot, pivots[t]? = some pivot →
        copied'.vec p n (start + t) = combination.vec p n pivot.row := by
  induction pivots generalizing copied start with
  | nil => exact ⟨copied, rfl, h, fun _ _ => rfl, by simp⟩
  | cons pivot rest ih =>
    rw [List.length_cons] at room
    obtain ⟨next, step, shaped, rows⟩ :=
      h.copyRowOf_ok hc (t := start) (by omega) (inside pivot List.mem_cons_self)
    obtain ⟨copied', run, final, before, placed⟩ := ih shaped (start + 1) (by omega)
      fun other hother => inside other (List.mem_cons_of_mem pivot hother)
    refine ⟨copied', ?_, final, ?_, ?_⟩
    · simp only [List.zipIdx_cons, List.foldlM_cons, step]
      exact run
    · intro k hk
      rw [before k (by omega), rows, Function.update_of_ne (by omega)]
    · intro t other place
      cases t with
      | zero =>
        have first : pivot = other := by simpa using place
        rw [Nat.add_zero, before start (Nat.lt_succ_self start), rows, Function.update_self, first]
      | succ t =>
        have later : rest[t]? = some other := by simpa using place
        rw [← Nat.add_assoc, Nat.add_right_comm, placed t other later]

theorem collect_ok {image combination : RowMatrix e} (hi : image.Shaped p r n)
    (hc : combination.Shaped p m m) {pivots : List Pivot} (length : pivots.length = r)
    (fewer : r ≤ m) (inside : ∀ pivot ∈ pivots, pivot.row < m) :
    ∃ combinations, collect image combination pivots =
        pure ⟨image, combinations, renumber pivots⟩ ∧ combinations.Shaped p r m ∧
      ∀ k pivot, pivots[k]? = some pivot →
        combinations.vec p m k = combination.vec p m pivot.row := by
  have fits : Fits e r m := hc.fits.of_le fewer
  obtain ⟨combinations, run, final, -, placed⟩ := copyRows_ok hc pivots
    (RowMatrix.blank_shaped hi.supported hi.rows_le hc.columns_le fits) 0 (by omega) inside
  refine ⟨combinations, ?_, final, ?_⟩
  · have copied : copyCombinations combination (RowMatrix.blank e p r m) pivots =
        .ok combinations := run
    simp only [collect, hi.prime, hc.columns, length,
      RowMatrix.new_of_fits hi.supported fits, pure_bind,
      copied, hi.copy_eq]
    rfl
  · intro k pivot place
    rw [← placed k pivot place, Nat.zero_add]

/-- A basis of `r` rows with `n` columns, combined from `m` initial rows, with the pivots of its
rows. -/
structure Shaped (b : PivotBasis (RowMatrix e)) (p : SmallPrime) (r n m : Nat) : Prop where
  image : b.image.Shaped p r n
  combinations : b.combinations.Shaped p r m
  length : b.pivots.length = r
  pivots : ∀ k pivot, b.pivots[k]? = some pivot → pivotOf (b.image.vec p n k) k = some pivot

variable {b : PivotBasis (RowMatrix e)}

/-- A copy in another encoding has the same rows and pivots. -/
theorem Shaped.mapBuild (h : b.Shaped p r n m) {f : Encoding}
    {c : PivotBasis (RowMatrix f)}
    (call : b.mapBuild (RowMatrix.recode f) = pure c) :
    c.Shaped p r n m ∧ c.image.grid p r n = b.image.grid p r n := by
  obtain ⟨image, combinations, pivots⟩ := mapBuild_eq_pure.mp call
  obtain ⟨shaped, rows⟩ := h.image.of_recode image
  refine ⟨⟨shaped, (h.combinations.of_recode combinations).1, pivots ▸ h.length, ?_⟩, ?_⟩
  · intro t pivot place
    rw [pivots] at place
    have inside : t < r := h.length ▸ (List.getElem?_eq_some_iff.mp place).1
    rw [rows t inside]
    exact h.pivots t pivot place
  · funext i
    exact rows i i.isLt

/-- The pivots of a basis are determined by its image. -/
theorem Shaped.pivots_eq {f : Encoding} {b' : PivotBasis (RowMatrix f)} {m' : Nat}
    (h : b.Shaped p r n m) (h' : b'.Shaped p r n m')
    (same : ∀ k, k < r → b'.image.vec p n k = b.image.vec p n k) : b'.pivots = b.pivots := by
  apply List.ext_getElem (h'.length.trans h.length.symm)
  intro k inside' inside
  have row : k < r := h.length ▸ inside
  have found := h.pivots k _ (List.getElem?_eq_getElem inside)
  have found' := h'.pivots k _ (List.getElem?_eq_getElem inside')
  rw [same k row, found] at found'
  exact (Option.some.inj found').symm

theorem requireListFits_zero : requireListFits 0 = .ok () := by
  rw [requireListFits, Nat.zero_mul]
  exact require_eq_ok.mpr (decide_eq_true Storage.allocationLimit_pos)

/-- A row with a column takes at least a word, so the lists of pivots fit if the image does. -/
theorem requireListFits_of_columns {image : RowMatrix e} (h : image.Shaped p r n) (wide : 0 < n) :
    requireListFits r = .ok () := by
  rcases Nat.eq_zero_or_pos r with rfl | positive
  · exact requireListFits_zero
  · apply require_eq_ok.mpr
    rw [decide_eq_true_eq]
    have word : Binary.wordBytes ≤ e.rowCells n * e.cellBytes :=
      Encoding.word_le_rowCells (h.sound positive).narrow wide
    calc r * Binary.wordBytes ≤ r * (e.rowCells n * e.cellBytes) := Nat.mul_le_mul_left r word
      _ = r * e.rowCells n * e.cellBytes := (Nat.mul_assoc _ _ _).symm
      _ < Storage.allocationLimit := by
        have length := h.fits.length_eq
        rw [← length]
        exact h.fits

theorem Shaped.requireListFits_ok (h : b.Shaped p r n m) : requireListFits r = .ok () := by
  rcases Nat.eq_zero_or_pos r with rfl | positive
  · exact requireListFits_zero
  · have inside : 0 < b.pivots.length := by rw [h.length]; exact positive
    obtain ⟨c, -, -⟩ := pivotOf_eq_some.mp (h.pivots 0 _ (List.getElem?_eq_getElem inside))
    exact requireListFits_of_columns h.image (Fin.pos c)

/-- The column that is read next has to be the one of the next row's pivot. -/
theorem takePivots_succ {image : RowMatrix e} (h : image.Shaped p r n) {start : Nat}
    (inside : start < r) (remaining : Nat) (input : List UInt8) :
    takePivots image (remaining + 1) start input = Binary.takeWord input >>= fun taken =>
      match pivotOf (image.vec p n start) start with
      | none => throw (.misplacedPivot start taken.1)
      | some pivot =>
        if pivot.column = taken.1 then
          takePivots image remaining (start + 1) taken.2 >>= fun later =>
            pure (pivot :: later.1, later.2)
        else throw (.misplacedPivot start taken.1) := by
  rw [takePivots, Binary.run_bind]
  congr 1
  funext ⟨column, input⟩
  dsimp only
  rw [Binary.run_lift_bind (h.leading_eq inside), h.prime]
  cases leads : EchelonForm.lead (image.vec p n start) with
  | none =>
    rw [pivotOf_eq_none.mpr (EchelonForm.lead_eq_none.mp leads)]
    rfl
  | some c =>
    rw [pivotOf_eq_some.mpr ⟨c, leads, rfl⟩]
    have coefficient := p.clearingCoefficient_eq (EchelonForm.lead_eq_some.mp leads).1
    by_cases same : c.val = column
    · subst same
      simp only [Option.map_some, ne_eq, not_true_eq_false, if_false, if_true]
      exact Binary.run_lift_bind coefficient _ input
    · simp only [Option.map_some, ne_eq, same, not_false_eq_true, if_true, if_false]
      rfl

/-- The pivots are read back, with their coefficients computed from the image. -/
theorem reads_takePivots {image : RowMatrix e} (h : image.Shaped p r n) (pivots : List Pivot)
    (start : Nat) (room : start + pivots.length ≤ r)
    (found : ∀ t pivot, pivots[t]? = some pivot →
      pivotOf (image.vec p n (start + t)) (start + t) = some pivot) :
    Binary.Reads (takePivots image pivots.length start)
      (pivots.flatMap fun pivot => Binary.word pivot.column) pivots := by
  induction pivots generalizing start with
  | nil => exact Binary.reads_pure []
  | cons pivot rest ih =>
    rw [List.length_cons] at room
    have later (t : Nat) (other : Pivot) (place : rest[t]? = some other) :
        pivotOf (image.vec p n (start + 1 + t)) (start + 1 + t) = some other := by
      rw [Nat.add_right_comm, Nat.add_assoc]
      exact found (t + 1) other place
    have others := ih (start + 1) (by omega) later
    have first := found 0 pivot rfl
    rw [Nat.add_zero] at first
    have column : pivot.column ≤ Storage.maxSize := by
      obtain ⟨c, -, rfl⟩ := pivotOf_eq_some.mp first
      exact Nat.le_trans (Nat.le_of_lt c.isLt) h.columns_le
    intro tail
    rw [List.length_cons, takePivots_succ h (by omega), List.flatMap_cons, List.append_assoc,
      Binary.reads_takeWord column, pure_bind, first]
    dsimp only
    rw [if_pos rfl, others tail, pure_bind]

theorem Shaped.reads_decode (h : b.Shaped p r n m) :
    Binary.Reads (decode p) b.encode b := by
  have bytes : b.encode = b.image.encode ++ (b.combinations.encode ++
      b.pivots.flatMap fun pivot => Binary.word pivot.column) := by
    rw [encode, pivotColumns, List.flatMap_map, List.append_assoc]
  have pivots := reads_takePivots h.image b.pivots 0
    (by rw [Nat.zero_add, h.length]) fun t pivot place => by
      rw [Nat.zero_add]
      exact h.pivots t pivot place
  rw [h.length] at pivots
  rw [bytes]
  refine h.image.reads_decode.bind (h.combinations.reads_decode.bind ?_)
  simp only [h.image.rows, h.combinations.rows, ne_eq, not_true_eq_false, if_false]
  refine (Binary.reads_lift h.requireListFits_ok).bind_nil ?_
  exact pivots.bind_pure fun pivots =>
    (⟨b.image, b.combinations, pivots⟩ : PivotBasis (RowMatrix e))

end RowReduction.PivotBasis

namespace RowReduction

variable {e : Encoding} {p : SmallPrime}

theorem SmallPrime.ofNat?_eq_ok {k : Nat} : SmallPrime.ofNat? k = .ok p ↔ k = p.val := by
  constructor
  · intro small
    unfold SmallPrime.ofNat? at small
    split at small
    · cases small
      rfl
    · cases small
  · rintro rfl
    exact dif_pos ⟨p.le_251, p.prime⟩

namespace EncodedBasis

open Binary

theorem ofTag?_eq_some {b : UInt8} : ofTag? p b = some e ↔ b = tag e ∧ e.canStore p = true := by
  constructor
  · intro known
    have found := List.find?_some known
    simp only [Bool.and_eq_true, beq_iff_eq] at found
    exact ⟨found.1.symm, found.2⟩
  · rintro ⟨rfl, supported⟩
    cases e <;> simp [ofTag?, tag, supported]

variable [Storage.Memory]

theorem decode_header (supported : e.canStore p = true) (input : List UInt8) :
    decode (UInt8.ofNat p.val :: tag e :: input) =
      PivotBasis.decode p input >>= fun taken => pure (⟨e, taken.1⟩, taken.2) := by
  have known : SmallPrime.ofNat? p.val = .ok p := SmallPrime.ofNat?_eq_ok.mpr rfl
  have tagged : ofTag? p (tag e) = some e := ofTag?_eq_some.mpr ⟨rfl, supported⟩
  rw [decode, run_bind, takeByte_eq_pure.mpr rfl, pure_bind]
  simp only [toNat_ofNat_of_le (Nat.le_refl p.val), known]
  rw [run_bind, takeByte_eq_pure.mpr rfl, pure_bind]
  simp only [tagged]
  rfl

/-- Bytes that are not the header of a basis are answered with an error. -/
theorem decode_cases (input : List UInt8) : (∃ failure, decode input = throw failure) ∨
    ∃ p e rest, e.canStore p = true ∧ input = UInt8.ofNat p.val :: tag e :: rest := by
  match input with
  | [] => exact .inl ⟨.endOfInput, rfl⟩
  | byte :: input =>
    rw [decode, run_bind, takeByte_eq_pure.mpr rfl, pure_bind]
    dsimp only
    cases small : SmallPrime.ofNat? byte.toNat with
    | error failure => exact .inl ⟨.notPrime byte.toNat, rfl⟩
    | ok p =>
      have prime : byte = UInt8.ofNat p.val := by
        rw [← SmallPrime.ofNat?_eq_ok.mp small, UInt8.ofNat_toNat]
      match input with
      | [] => exact .inl ⟨.endOfInput, rfl⟩
      | t :: rest =>
        cases known : ofTag? p t with
        | none =>
          refine .inl ⟨.unknownTag t.toNat p.val, ?_⟩
          dsimp only
          rw [run_bind, takeByte_eq_pure.mpr rfl, pure_bind]
          simp only [known]
          rfl
        | some e =>
          obtain ⟨rfl, supported⟩ := ofTag?_eq_some.mp known
          exact .inr ⟨p, e, rest, supported, congrArg (· :: tag e :: rest) prime⟩

theorem decode_eq_pure {b : EncodedBasis} {input rest : List UInt8}
    (read : decode input = pure (b, rest)) : ∃ p input', b.encoding.canStore p = true ∧
      input = UInt8.ofNat p.val :: tag b.encoding :: input' ∧
      PivotBasis.decode p input' = pure (b.basis, rest) := by
  rcases decode_cases input with ⟨failure, ended⟩ | ⟨p, e, input', supported, rfl⟩
  · cases ended.symm.trans read
  · rw [decode_header supported, bind_eq_pure] at read
    obtain ⟨⟨basis, _⟩, basis_read, result⟩ := read
    cases result
    exact ⟨p, input', supported, rfl, basis_read⟩

/-- A basis with its encoding is read back from its bytes. -/
theorem reads_decode {b : EncodedBasis} {m n r : Nat} (h : b.basis.Shaped p r n m) :
    Reads decode b.encode b := by
  intro rest
  obtain ⟨e, b⟩ := b
  have prime : b.prime = p := h.image.prime
  rw [encode, EncodedBasis.prime, prime, List.cons_append, List.cons_append,
    decode_header h.image.supported, h.reads_decode rest, pure_bind]

end EncodedBasis

end RowReduction
