import Mathlib
import RowReduction.Proofs.Outcomes

/-!
Reachable matrices. A program gets a matrix by building or reading one, or from a call that was
given matrices it has. One call keeps matrices well-formed, so by induction every reachable matrix
is, and what the searches and the comparison of buffers rely on holds of it.
-/
namespace RowReduction

section

variable [Storage.Memory]

/-- One public call that was given the matrices of the list builds, leaves or answers a matrix. The
reductions can be called on matrices of one encoding or on matrices that carry theirs, and the
pivots of a basis need not be those of its rows. -/
inductive Made : List EncodedMatrix → EncodedMatrix → Prop where
  | new {e p r n x} (rows_le : r ≤ Storage.maxSize) (columns_le : n ≤ Storage.maxSize)
      (call : EncodedMatrix.new e p r n = pure x) : Made [] x
  | identity {e p n x} (size : n ≤ Storage.maxSize)
      (call : EncodedMatrix.identity e p n = pure x) : Made [] x
  | ofLists {e p rows n x} (rows_le : List.length rows ≤ Storage.maxSize)
      (columns_le : n ≤ Storage.maxSize) (call : EncodedMatrix.ofLists e p rows n = pure x) :
      Made [] x
  | decode {e p input x rest} (call : EncodedMatrix.decode e p input = pure (x, rest)) : Made [] x
  | decodeBasis {e p input rest x} {b : PivotBasis (RowMatrix e)}
      (call : PivotBasis.decode p input = pure (b, rest)) (member : x ∈ b.matrices) :
      Made [] ⟨e, x⟩
  | decodeEncodedBasis {input rest x} {b : EncodedBasis}
      (call : EncodedBasis.decode input = pure (b, rest)) (member : x ∈ b.matrices) : Made [] x
  | copy {m x : EncodedMatrix} (call : m.copy = pure x) : Made [m] x
  | recode {m x : EncodedMatrix} {f} (call : m.recode f = pure x) : Made [m] x
  | recodeInPlace {m : EncodedMatrix} {f outcome} (call : m.recodeInPlace f = .ok outcome) :
      Made [m] outcome.state
  | operate {e outcome} {m : RowMatrix e} {op : Operation (RowMatrix e)}
      (call : op.run m = .ok outcome) (sized : op.Sized) :
      Made (⟨e, m⟩ :: op.others.map fun m => ⟨e, m⟩) ⟨e, outcome.state⟩
  | add {m other : EncodedMatrix} {c outcome} (call : m.add other c = .ok outcome) :
      Made [m, other] outcome.state
  | split {e wanted pacer outcome x} {m : RowMatrix e}
      (call : m.split wanted pacer = .ok outcome)
      (member : x ∈ outcome.matrices (fun s => [s.1]) Splitting.matrices) : Made [⟨e, m⟩] ⟨e, x⟩
  | splitEncoded {m : EncodedMatrix} {wanted pacer outcome x}
      (call : m.split wanted pacer = .ok outcome)
      (member : x ∈ outcome.matrices (fun s => [s.1]) EncodedSplitting.matrices) : Made [m] x
  | preimages {e pacer outcome x} {m l : RowMatrix e} (call : m.preimages l pacer = .ok outcome)
      (member : x ∈ outcome.matrices (fun s => [s.matrix, s.residues]) fun answer => [answer]) :
      Made [⟨e, m⟩, ⟨e, l⟩] ⟨e, x⟩
  | preimagesEncoded {m l : EncodedMatrix} {pacer outcome x}
      (call : m.preimages l pacer = .ok outcome)
      (member : x ∈ outcome.matrices (fun s => [s.matrix, s.residues]) fun answer => [answer]) :
      Made [m, l] x
  | replay {e pacer outcome x} {b : PivotBasis (RowMatrix e)} {l : RowMatrix e}
      (call : b.preimages l pacer = .ok outcome)
      (member : x ∈ outcome.matrices (fun s => [s.1]) fun answer => [answer]) :
      Made (⟨e, l⟩ :: b.matrices.map fun m => ⟨e, m⟩) ⟨e, x⟩
  | replayEncoded {b : EncodedBasis} {l : EncodedMatrix} {pacer outcome x}
      (call : b.preimages l pacer = .ok outcome)
      (member : x ∈ outcome.matrices (fun s => [s.1]) fun answer => [answer]) :
      Made (l :: b.matrices) x
  | quotientBasis {e pacer outcome} {m image : RowMatrix e}
      (call : m.quotientBasis image pacer = .ok outcome) :
      Made [⟨e, m⟩, ⟨e, image⟩] ⟨e, outcome.state.1⟩
  | quotientBasisEncoded {m image : EncodedMatrix} {pacer outcome}
      (call : m.quotientBasis image pacer = .ok outcome) : Made [m, image] outcome.state.1

/-- A matrix that a sequence of public calls leads to. -/
inductive Reachable : EncodedMatrix → Prop where
  | step {given : List EncodedMatrix} {x : EncodedMatrix} (earlier : ∀ m ∈ given, Reachable m)
      (call : Made given x) : Reachable x

/-- One call keeps matrices well-formed. -/
theorem Made.wellFormed {given : List EncodedMatrix} {x : EncodedMatrix} (made : Made given x)
    (wf : ∀ m ∈ given, m.matrix.WellFormed) : x.matrix.WellFormed := by
  cases made with
  | new rows_le columns_le call =>
    obtain ⟨m, built, result⟩ := bind_eq_pure.mp call
    cases result
    exact (RowMatrix.Shaped.of_new rows_le columns_le built).wellFormed
  | identity size call =>
    obtain ⟨m, built, result⟩ := bind_eq_pure.mp call
    cases result
    exact (RowMatrix.Shaped.of_identity size built).wellFormed
  | ofLists rows_le columns_le call =>
    obtain ⟨m, built, result⟩ := bind_eq_pure.mp call
    cases result
    exact (RowMatrix.Shaped.of_ofLists rows_le columns_le built).wellFormed
  | decode call =>
    obtain ⟨m, _, read, result⟩ := Binary.run_bind_eq_pure.mp call
    cases result
    exact RowMatrix.wellFormed_of_decode read
  | @copy m _ call =>
    obtain ⟨copy, copied, result⟩ := bind_eq_pure.mp call
    cases result
    have h := (wf m List.mem_cons_self).shaped
    exact (h.of_recode copied).1.wellFormed
  | @recode m _ _ call =>
    obtain ⟨copy, recoded, result⟩ := bind_eq_pure.mp call
    cases result
    have h := (wf m List.mem_cons_self).shaped
    exact (h.of_recode recoded).1.wellFormed
  | recodeInPlace call =>
    exact EncodedMatrix.recodeInPlace_wellFormed (wf _ List.mem_cons_self) call
  | operate call sized =>
    rw [List.forall_mem_cons, List.forall_mem_map] at wf
    exact Operation.run_wellFormed wf.1 wf.2 sized call
  | add call =>
    rw [List.forall_mem_cons, List.forall_mem_singleton] at wf
    exact EncodedMatrix.add_wellFormed wf.1 wf.2 call
  | split call member =>
    exact RowMatrix.split_wellFormed (wf _ List.mem_cons_self) call _ member
  | preimages call member =>
    rw [List.forall_mem_cons, List.forall_mem_singleton] at wf
    exact RowMatrix.preimages_wellFormed wf.1 wf.2 call _ member
  | quotientBasis call =>
    rw [List.forall_mem_cons, List.forall_mem_singleton] at wf
    exact RowMatrix.quotientBasis_wellFormed wf.1 wf.2 call
  | decodeBasis call member => exact PivotBasis.wellFormed_of_decode call _ member
  | replay call member =>
    simp only [PivotBasis.matrices, List.map_cons, List.forall_mem_cons] at wf
    exact PivotBasis.preimages_wellFormed wf.2.1 wf.2.2.1 wf.1 call _ member
  | splitEncoded call member =>
    exact EncodedMatrix.split_wellFormed (wf _ List.mem_cons_self) call _ member
  | preimagesEncoded call member =>
    rw [List.forall_mem_cons, List.forall_mem_singleton] at wf
    exact EncodedMatrix.preimages_wellFormed wf.1 wf.2 call _ member
  | quotientBasisEncoded call =>
    rw [List.forall_mem_cons, List.forall_mem_singleton] at wf
    exact EncodedMatrix.quotientBasis_wellFormed wf.1 wf.2 call
  | decodeEncodedBasis call member => exact EncodedBasis.wellFormed_of_decode call _ member
  | replayEncoded call member =>
    rw [List.forall_mem_cons] at wf
    exact EncodedBasis.preimages_wellFormed wf.2 wf.1 call _ member

variable {e : Encoding}

theorem Reachable.wellFormed {x : EncodedMatrix} (reachable : Reachable x) :
    x.matrix.WellFormed := by
  induction reachable with
  | step _ call ih => exact call.wellFormed ih

/-- A program gets every well-formed matrix, at least by reading its bytes. -/
theorem RowMatrix.WellFormed.reachable {m : RowMatrix e} (wf : m.WellFormed) :
    Reachable ⟨e, m⟩ := by
  have read : EncodedMatrix.decode e m.prime (m.encode ++ []) = pure (⟨e, m⟩, []) :=
    (wf.shaped.reads_decode.bind_pure fun m => (⟨e, m⟩ : EncodedMatrix)) []
  exact .step (List.forall_mem_nil _) (.decode read)

/-- What the search for the first nonzero entry of a row of length `n` has to answer. -/
def LeastNonzero (entry : Nat → Nat) (n : Nat) : Option (Nat × Nat) → Prop
  | none => ∀ j, j < n → entry j = 0
  | some (j, x) => j < n ∧ entry j = x ∧ x ≠ 0 ∧ ∀ k, k < j → entry k = 0

namespace RowMatrix

/-- The buffer holds the padded rows and nothing else, entries are residues and padding is zero, so
the search for the first nonzero entry of a row finds the least one. -/
structure Invariant (m : RowMatrix e) : Prop where
  size : m.cells.size = m.rows * m.rowCells
  reduced : ∀ i j, i < m.rows → j < m.columns → m.read i j < m.prime.val
  padding : ∀ i j, i < m.rows → m.columns ≤ j → j < e.rowEntries m.columns → m.read i j = 0
  leading : ∀ i, i < m.rows →
    ∃ found, m.leading i = .ok found ∧ LeastNonzero (m.read i) m.columns found

theorem WellFormed.padding {m : RowMatrix e} (wf : m.WellFormed) {i j : Nat} (hi : i < m.rows)
    (outside : m.columns ≤ j) (inRow : j < e.rowEntries m.columns) : m.read i j = 0 := by
  have cell : j / e.lanes < m.rowCells := (Nat.div_lt_iff_lt_mul e.lanes_pos).mpr inRow
  rw [m.read_eq_entry i cell]
  exact (wf.sound i hi).padding j outside

theorem WellFormed.leading_least {m : RowMatrix e} (wf : m.WellFormed) {i : Nat}
    (hi : i < m.rows) :
    ∃ found, m.leading i = .ok found ∧ LeastNonzero (m.read i) m.columns found := by
  have h := wf.shaped
  refine ⟨_, h.leading_eq hi, ?_⟩
  cases leads : EchelonForm.lead (m.vec m.prime m.columns i) with
  | none =>
    intro j hj
    exact (h.vec_eq_zero hi ⟨j, hj⟩).mp (congrFun (EchelonForm.lead_eq_none.mp leads) ⟨j, hj⟩)
  | some c =>
    obtain ⟨nonzero, before⟩ := EchelonForm.lead_eq_some.mp leads
    refine ⟨c.isLt, (h.val_vec hi c).symm, ?_, ?_⟩
    · intro zero
      exact nonzero ((ZMod.val_eq_zero _).mp zero)
    · intro k hk
      have inside := Nat.lt_trans hk c.isLt
      exact (h.vec_eq_zero hi ⟨k, inside⟩).mp (before ⟨k, inside⟩ hk)

theorem WellFormed.invariant {m : RowMatrix e} (wf : m.WellFormed) : m.Invariant where
  size := wf.size
  reduced _ _ := wf.read_lt
  padding _ _ := wf.padding
  leading _ := wf.leading_least

/-- Comparing buffers compares entries. -/
theorem WellFormed.beq_iff {m m' : RowMatrix e} (wf : m.WellFormed) (wf' : m'.WellFormed) :
    (m == m') = true ↔ m.prime = m'.prime ∧ m.rows = m'.rows ∧ m.columns = m'.columns ∧
      ∀ i j, i < m.rows → j < m.columns → m.read i j = m'.read i j := by
  rw [beq_iff_eq]
  constructor
  · rintro rfl
    exact ⟨rfl, rfl, rfl, fun _ _ _ _ => rfl⟩
  · rintro ⟨prime, rows, columns, same⟩
    exact wf.ext wf' prime rows columns same

end RowMatrix

/-- Every reachable matrix satisfies the representation invariant, and two of them in one encoding
are equal exactly if their prime, shape and entries agree. -/
theorem reachable_invariant {m m' : RowMatrix e} (reachable : Reachable ⟨e, m⟩)
    (reachable' : Reachable ⟨e, m'⟩) :
    m.Invariant ∧ ((m == m') = true ↔
      m.prime = m'.prime ∧ m.rows = m'.rows ∧ m.columns = m'.columns ∧
        ∀ i j, i < m.rows → j < m.columns → m.read i j = m'.read i j) :=
  ⟨reachable.wellFormed.invariant, reachable.wellFormed.beq_iff reachable'.wellFormed⟩

end

/-- A sum that skips a part of its source that is not zero. -/
theorem reachable_invariant_of_sample :
    let m := (RowMatrix.blank .packed .two 2 70).write 0 3 1
    let m' := m.combine 1 (m.row 0) 1 64
    Reachable ⟨.packed, m'⟩ ∧ Reachable ⟨.packed, m⟩ ∧ m'.Invariant ∧ ((m' == m) = true ↔
      m'.prime = m.prime ∧ m'.rows = m.rows ∧ m'.columns = m.columns ∧
        ∀ i j, i < m'.rows → j < m'.columns → m'.read i j = m.read i j) := by
  intro m m'
  have built : EncodedMatrix.new .packed .two 2 70 =
      pure ⟨.packed, RowMatrix.blank .packed .two 2 70⟩ := by
    rw [EncodedMatrix.new, RowMatrix.new_of_fits (by decide) (by decide)]
    rfl
  have put : Operation.run (.put 0 3 1) (RowMatrix.blank .packed .two 2 70) =
      .ok ⟨m, .ok ()⟩ := rfl
  have added : Operation.run (.addRow 1 0 1 64) m = .ok ⟨m', .ok ()⟩ := rfl
  have empty : Reachable ⟨.packed, RowMatrix.blank .packed .two 2 70⟩ :=
    .step (List.forall_mem_nil _) (.new (by decide) (by decide) built)
  have first : Reachable ⟨.packed, m⟩ :=
    .step (List.forall_mem_singleton.mpr empty) (.operate put trivial)
  have second : Reachable ⟨.packed, m'⟩ :=
    .step (List.forall_mem_singleton.mpr first) (.operate added trivial)
  exact ⟨second, first, reachable_invariant second first⟩

end RowReduction
