import Mathlib
import RowReduction.Proofs.Agreement

/-!
What a reduction owes to the row space alone. The leading columns of rows in echelon form are those
of all vectors in their span, and a vector has only one reduced form that vanishes in them. So
matrices with the same row space have the same pivot columns and leave the same residues, however
their rows are chosen, ordered and stored.
-/
namespace RowReduction

open EchelonForm

section Vectors

variable {K : Type*} [Field K] [DecidableEq K] {k m n r : Nat}

/-- The columns in which vectors of a subspace have their first nonzero entry. -/
def spaceColumns (S : Submodule K (Fin n → K)) : Set (Fin n) :=
  {c | ∃ v ∈ S, lead v = some c}

/-- The columns in which rows of a matrix have their first nonzero entry. -/
def leadingColumns (M : Matrix (Fin r) (Fin n) K) : Set (Fin n) :=
  {c | ∃ i, lead (M.row i) = some c}

/-- A vector in the span of rows in echelon form leads where one of the rows leads. -/
theorem exists_lead_of_mem_span {rows : List (Fin n → K)} (echelon : IsEchelon (plain K n) rows)
    {v : Fin n → K} (member : v ∈ Submodule.span K {r | r ∈ rows}) {c : Fin n}
    (leads : lead v = some c) : ∃ r ∈ rows, lead r = some c := by
  induction rows generalizing v with
  | nil =>
    simp only [List.not_mem_nil, Set.ofPred_false, Submodule.span_empty] at member
    rw [lead_eq_none.mpr ((Submodule.mem_bot K).mp member)] at leads
    cases leads
  | cons r rest ih =>
    obtain ⟨below, echelon⟩ := List.pairwise_cons.mp echelon
    rw [List.setOfPred_mem_cons, Submodule.mem_span_insert] at member
    obtain ⟨a, y, hy, rfl⟩ := member
    obtain ⟨nonzero, before⟩ := lead_eq_some.mp leads
    -- The rest leads in `c` too if the first row has no part in the columns up to `c`.
    have rest_leads (absent : ∀ d, d ≤ c → a * r d = 0) : ∃ s ∈ r :: rest, lead s = some c := by
      have same (d : Fin n) (hd : d ≤ c) : (a • r + y) d = y d := by
        rw [Pi.add_apply, Pi.smul_apply, smul_eq_mul, absent d hd, zero_add]
      have tail : lead y = some c := by
        rw [lead_eq_some, ← same c (le_refl c)]
        exact ⟨nonzero, fun d hd => (same d (le_of_lt hd)).symm.trans (before d hd)⟩
      obtain ⟨s, hs, found⟩ := ih echelon hy tail
      exact ⟨s, List.mem_cons_of_mem r hs, found⟩
    cases first : lead r with
    | none =>
      have zero := lead_eq_none.mp first
      exact rest_leads fun d _ => by rw [zero, Pi.zero_apply, mul_zero]
    | some d =>
      obtain ⟨entry, early⟩ := lead_eq_some.mp first
      have blank : plain K n y d = 0 := view_of_mem_span (fun s hs => below s hs d first) hy
      rw [LinearMap.id_apply] at blank
      rcases lt_trichotomy c d with ahead | same | behind
      · exact rest_leads fun i hi => by rw [early i (lt_of_le_of_lt hi ahead), mul_zero]
      · exact ⟨r, List.mem_cons_self, same ▸ first⟩
      · have total := before d behind
        rw [Pi.add_apply, Pi.smul_apply, smul_eq_mul, blank, add_zero] at total
        have absent : a = 0 := (mul_eq_zero.mp total).resolve_right entry
        exact rest_leads fun i _ => by rw [absent, zero_mul]

theorem spaceColumns_span {rows : List (Fin n → K)} (echelon : IsEchelon (plain K n) rows) :
    spaceColumns (Submodule.span K {r | r ∈ rows}) = {c | ∃ r ∈ rows, lead r = some c} := by
  ext c
  constructor
  · rintro ⟨v, member, leads⟩
    exact exists_lead_of_mem_span echelon member leads
  · rintro ⟨r, member, leads⟩
    exact ⟨r, Submodule.subset_span member, leads⟩

/-- Two reduced forms of a vector are equal: their difference would have a leading column. -/
theorem eq_of_reduced {S : Submodule K (Fin n → K)} {x y z : Fin n → K} (hy : y - x ∈ S)
    (hz : z - x ∈ S) (reduced : ∀ c ∈ spaceColumns S, y c = 0)
    (reduced' : ∀ c ∈ spaceColumns S, z c = 0) : y = z := by
  have member : y - z ∈ S := by
    have difference := S.sub_mem hy hz
    rwa [sub_sub_sub_cancel_right] at difference
  cases leads : lead (y - z) with
  | none => exact sub_eq_zero.mp (lead_eq_none.mp leads)
  | some c =>
    have column : c ∈ spaceColumns S := ⟨y - z, member, leads⟩
    have nonzero := (lead_eq_some.mp leads).1
    rw [Pi.sub_apply, reduced c column, reduced' c column, sub_zero] at nonzero
    exact absurd rfl nonzero

variable {vectors others : Nat → Fin n → K}

variable (vectors) in
/-- Reducing by settled rows is a reduced form modulo the span of the initial rows. -/
theorem reduce_settled_reduced (i : Nat) (x : Fin n → K) :
    reduce (plain K n) (settled (plain K n) vectors i) x - x ∈
        Submodule.span K (vectors '' Set.Iio i) ∧
      ∀ c ∈ spaceColumns (Submodule.span K (vectors '' Set.Iio i)),
        reduce (plain K n) (settled (plain K n) vectors i) x c = 0 := by
  rw [← span_settled (plain K n), spaceColumns_span (isEchelon_settled i)]
  constructor
  · exact reduce_sub_mem (plain K n) _ _ (fun _ member _ => Submodule.subset_span member) x
  · rintro c ⟨r, member, leads⟩
    exact view_reduce_lead (isEchelon_settled i) member leads x

/-- The remainder of a vector depends on the span of the rows alone. -/
theorem reduce_settled_congr (spaces : Submodule.span K (others '' Set.Iio m) =
    Submodule.span K (vectors '' Set.Iio k)) (x : Fin n → K) :
    reduce (plain K n) (settled (plain K n) others m) x =
      reduce (plain K n) (settled (plain K n) vectors k) x := by
  have first := reduce_settled_reduced others m x
  have second := reduce_settled_reduced vectors k x
  rw [spaces] at first
  exact eq_of_reduced first.1 second.1 first.2 second.2

theorem ForwardEchelon.withZeros {M : Matrix (Fin r) (Fin n) K} (echelon : ForwardEchelon M) :
    EchelonWithZeros M := by
  obtain ⟨column, -, rows⟩ := echelon
  intro i j earlier c leads
  obtain ⟨nonzero, before, below⟩ := rows i
  have found : lead (M.row i) = some (column i) := lead_eq_some.mpr ⟨nonzero, before⟩
  rw [leads] at found
  cases found
  exact below j earlier

theorem ForwardEchelon.leadingColumns_eq {M : Matrix (Fin r) (Fin n) K} (echelon : ForwardEchelon M) :
    leadingColumns M = spaceColumns (rowSpan M) := by
  rw [rowSpan_ofFn, spaceColumns_span echelon.withZeros.isEchelon]
  ext c
  constructor
  · rintro ⟨i, leads⟩
    exact ⟨M.row i, (List.mem_ofFn' _ _).mpr ⟨i, rfl⟩, leads⟩
  · rintro ⟨v, member, leads⟩
    obtain ⟨i, rfl⟩ := (List.mem_ofFn' _ _).mp member
    exact ⟨i, leads⟩

end Vectors

theorem PivotBasis.Shaped.mem_pivotColumns [Storage.Memory] {e : Encoding} {p : SmallPrime}
    {r n m c : Nat} {b : PivotBasis (RowMatrix e)} (h : b.Shaped p r n m) :
    c ∈ b.pivotColumns ↔ ∃ d ∈ leadingColumns (b.image.grid p r n), d.val = c := by
  rw [PivotBasis.pivotColumns, List.mem_map]
  constructor
  · rintro ⟨pivot, member, rfl⟩
    obtain ⟨k, place⟩ := List.mem_iff_getElem?.mp member
    have inside : k < r := h.length ▸ (List.getElem?_eq_some_iff.mp place).1
    obtain ⟨d, leads, rfl⟩ := pivotOf_eq_some.mp (h.pivots k pivot place)
    exact ⟨d, ⟨⟨k, inside⟩, leads⟩, rfl⟩
  · rintro ⟨d, ⟨i, leads⟩, rfl⟩
    have inside : i.val < b.pivots.length := h.length.symm ▸ i.isLt
    have found := h.pivots i _ (List.getElem?_eq_getElem inside)
    obtain ⟨c, leads', same⟩ := pivotOf_eq_some.mp found
    obtain rfl : d = c := Option.some.inj (leads.symm.trans leads')
    exact ⟨_, List.getElem_mem inside, congrArg Pivot.column same⟩

namespace RowMatrix

section

variable [Storage.Memory] {e f : Encoding} {r : Nat} {a left l residues answer : RowMatrix e}
  {a' left' l' residues' answer' : RowMatrix f} {b : PivotBasis (RowMatrix e)}
  {b' : PivotBasis (RowMatrix f)}

theorem HoldsImage.leadingColumns_eq (holds : a.HoldsImage left) :
    leadingColumns (left.grid a.prime left.rows a.columns) =
      spaceColumns (rowSpan (a.grid a.prime a.rows a.columns)) := by
  have echelon := holds.echelon
  have spans := holds.span_eq
  rw [← holds.shaped.rows] at echelon spans
  rw [echelon.leadingColumns_eq]
  exact congrArg spaceColumns spans

/-- Two matrices with rows of one width that span the same space. -/
structure SameSpan (a : RowMatrix e) (a' : RowMatrix f) : Prop where
  prime : a'.prime = a.prime
  columns : a'.columns = a.columns
  spans : rowSpan (a'.grid a.prime a'.rows a.columns) = rowSpan (a.grid a.prime a.rows a.columns)

omit [Storage.Memory] in
/-- The second matrix is written with the prime and the columns of the first one here, so that the
rows of both have one type. -/
theorem SameSpan.reshape (same : SameSpan a a') :
    ∃ rows cells, a' = ⟨a.prime, rows, a.columns, cells⟩ := by
  obtain ⟨prime, rows, columns, cells⟩ := a'
  obtain rfl : prime = a.prime := same.prime
  obtain rfl : columns = a.columns := same.columns
  exact ⟨rows, cells, rfl⟩

theorem Shaped.sameSpan {p : SmallPrime} {k m n : Nat} (h : a.Shaped p k n) (h' : a'.Shaped p m n)
    (spans : rowSpan (a'.grid p m n) = rowSpan (a.grid p k n)) : SameSpan a a' := by
  obtain ⟨-, rfl, rfl, rfl⟩ := h
  obtain rfl : a'.rows = m := h'.rows
  exact ⟨h'.prime, h'.columns, spans⟩

theorem SameSpan.leadingColumns_eq (same : SameSpan a a') (holds : a.HoldsImage left)
    (holds' : a'.HoldsImage left') :
    leadingColumns (left.grid a.prime left.rows a.columns) =
      leadingColumns (left'.grid a.prime left'.rows a.columns) := by
  obtain ⟨rows, cells, rfl⟩ := same.reshape
  rw [holds.leadingColumns_eq, ← same.spans]
  exact holds'.leadingColumns_eq.symm

theorem HoldsBasis.mem_pivotColumns {c : Nat} (holds : a.HoldsBasis left b)
    (image : a.HoldsImage left) : c ∈ b.pivotColumns ↔
      ∃ d ∈ leadingColumns (left.grid a.prime left.rows a.columns), d.val = c := by
  rw [(holds.basis_shaped image).mem_pivotColumns, holds.image, image.shaped.rows]

theorem SameSpan.pivotColumns_eq (same : SameSpan a a') (image : a.HoldsImage left)
    (image' : a'.HoldsImage left') (holds : a.HoldsBasis left b) (holds' : a'.HoldsBasis left' b') :
    b.pivotColumns.toFinset = b'.pivotColumns.toFinset := by
  have columns := same.leadingColumns_eq image image'
  obtain ⟨rows, cells, rfl⟩ := same.reshape
  ext c
  rw [List.mem_toFinset, List.mem_toFinset, holds.mem_pivotColumns image, columns,
    holds'.mem_pivotColumns image']

/-- Rows are reduced to their remainders modulo the row space. -/
theorem SameSpan.residues_same (same : SameSpan a a')
    (rows : ∀ j, j < r → l'.vec a.prime a.columns j = l.vec a.prime a.columns j)
    (reduces : a.Reduces l residues answer r) (reduces' : a'.Reduces l' residues' answer' r) :
    residues.Same residues' := by
  have spans := same.spans
  obtain ⟨count, cells, rfl⟩ := same.reshape
  refine reduces.residues_shaped.same reduces'.residues_shaped ?_
  intro j hj
  rw [rowSpan, rowSpan, range_row, range_row] at spans
  have residue := congrArg Prod.fst (reduces.pairs j hj)
  have residue' := congrArg Prod.fst (reduces'.pairs j hj)
  rw [remainder_fst] at residue residue'
  rw [rows j hj] at residue'
  exact residue'.trans ((reduce_settled_congr spans _).trans residue.symm)

/-- Each row of `residues` differs from that of `x` by a vector in the row space of `a`, and
vanishes in the leading columns of that space. -/
structure Remainders {g : Encoding} (a : RowMatrix e) (x : RowMatrix g) (residues : RowMatrix f) :
    Prop where
  congruent : ∀ j, j < x.rows → residues.vec a.prime a.columns j - x.vec a.prime a.columns j ∈
    rowSpan (a.grid a.prime a.rows a.columns)
  reduced : ∀ j, j < x.rows → ∀ c ∈ spaceColumns (rowSpan (a.grid a.prime a.rows a.columns)),
    residues.vec a.prime a.columns j c = 0

theorem Reduces.remainders {g : Encoding} {x : RowMatrix g}
    (reduces : a.Reduces l residues answer x.rows)
    (rows : ∀ j, j < x.rows → l.vec a.prime a.columns j = x.vec a.prime a.columns j) :
    a.Remainders x residues := by
  have each (j : Nat) (hj : j < x.rows) := by
    have residue := congrArg Prod.fst (reduces.pairs j hj)
    rw [remainder_fst, rows j hj] at residue
    have reduced := reduce_settled_reduced (a.vec a.prime a.columns) a.rows
      (x.vec a.prime a.columns j)
    rwa [← residue, ← range_row] at reduced
  exact ⟨fun j hj => (each j hj).1, fun j hj => (each j hj).2⟩

omit [Storage.Memory] in
/-- Rows that are congruent modulo the row space leave the same residue, also in reductions of
different matrices of rows. -/
theorem Remainders.eq_of_congruent {g h : Encoding} {x : RowMatrix g} {y : RowMatrix h}
    {residues : RowMatrix e} {others : RowMatrix f} (left : a.Remainders x residues)
    (right : a.Remainders y others) {i j : Nat} (hi : i < x.rows) (hj : j < y.rows)
    (congruent : x.vec a.prime a.columns i - y.vec a.prime a.columns j ∈
      rowSpan (a.grid a.prime a.rows a.columns)) :
    residues.vec a.prime a.columns i = others.vec a.prime a.columns j := by
  refine eq_of_reduced (left.congruent i hi) ?_ (left.reduced i hi) (right.reduced j hj)
  have between := Submodule.sub_mem _ (right.congruent j hj) congruent
  rwa [sub_sub, add_sub_cancel] at between

/-- Matrices with the same row space have the same pivot columns, and leave the same residues of all
rows that are reduced along with them or by their bases: the remainders of these rows modulo the row
space. -/
theorem reductions_modulo_row_space {g : Encoding} {x : RowMatrix g} (wf : a.WellFormed)
    (wf' : a'.WellFormed) (same : SameSpan a a') (wfx : x.WellFormed) (primes : x.prime = a.prime)
    (widths : x.columns = a.columns) (hl : x.recode e = pure l) (hl' : x.recode f = pure l') :
    (∀ wanted wanted' pacer pacer',
      Ends (a.split wanted pacer) (wanted ≠ .nothing ∧ ¬ Fits e a.rows a.rows)
        (pacer.stopRow a.rows ≠ none)
        fun s d => Ends (a'.split wanted' pacer') (wanted' ≠ .nothing ∧ ¬ Fits f a'.rows a'.rows)
          (pacer'.stopRow a'.rows ≠ none)
          fun s' d' => leadingColumns (s.1.grid a.prime s.1.rows a.columns) =
              leadingColumns (s'.1.grid a.prime s'.1.rows a.columns) ∧
            ∀ b ∈ d.basis, ∀ b' ∈ d'.basis,
              b.pivotColumns.toFinset = b'.pivotColumns.toFinset ∧
              ∀ cachedPacer cachedPacer',
                Ends (b.preimages l cachedPacer) (¬ Fits e x.rows a.rows)
                  (cachedPacer.stopRow b.rank ≠ none)
                  fun t _ => Ends (b'.preimages l' cachedPacer') (¬ Fits f x.rows a'.rows)
                    (cachedPacer'.stopRow b'.rank ≠ none)
                    fun t' _ => t.1.Same t'.1 ∧ a.Remainders x t.1) ∧
    ∀ pacer pacer',
      Ends (a.preimages l pacer) (¬ (Fits e x.rows a.rows ∧ Fits e a.rows a.rows))
        (pacer.stopRow a.rows ≠ none)
        fun s _ => Ends (a'.preimages l' pacer')
          (¬ (Fits f x.rows a'.rows ∧ Fits f a'.rows a'.rows)) (pacer'.stopRow a'.rows ≠ none)
          fun s' _ => s.residues.Same s'.residues ∧ a.Remainders x s.residues := by
  have hx : x.Shaped a.prime x.rows a.columns := ⟨wfx, primes, rfl, widths⟩
  obtain ⟨shaped, rows⟩ := hx.of_recode hl
  obtain ⟨shaped', rows'⟩ := hx.of_recode hl'
  have equal (j : Nat) (hj : j < x.rows) := (rows' j hj).trans (rows j hj).symm
  rw [← same.prime, ← same.columns] at shaped'
  constructor
  · intro wanted wanted' pacer pacer'
    refine (split_ends wf wanted pacer).imp id id ?_
    intro s d splits
    refine (split_ends wf' wanted' pacer').imp id id ?_
    intro s' d' splits'
    refine ⟨same.leadingColumns_eq splits.image splits'.image, ?_⟩
    intro b hb b' hb'
    have holds := splits.basis b hb
    have holds' := splits'.basis b' hb'
    have basis_shaped := holds.basis_shaped splits.image
    have basis_shaped' := holds'.basis_shaped splits'.image
    refine ⟨same.pivotColumns_eq splits.image splits'.image holds holds', ?_⟩
    intro cachedPacer cachedPacer'
    rw [PivotBasis.rank, PivotBasis.rank, basis_shaped.length, basis_shaped'.length]
    refine (PivotBasis.preimages_ends basis_shaped shaped cachedPacer).imp id id ?_
    intro t answer replays
    refine (PivotBasis.preimages_ends basis_shaped' shaped' cachedPacer').imp id id ?_
    intro t' answer' replays'
    have reduces := holds.reduces splits.image replays
    exact ⟨same.residues_same equal reduces (holds'.reduces splits'.image replays'),
      reduces.remainders rows⟩
  · intro pacer pacer'
    refine (preimages_ends wf shaped pacer).imp id id ?_
    rintro s answer ⟨-, reduces⟩
    refine (preimages_ends wf' shaped' pacer').imp id id ?_
    rintro s' answer' ⟨-, reduces'⟩
    exact ⟨same.residues_same equal reduces reduces', reduces.remainders rows⟩

end

theorem reductions_modulo_row_space_of_sample :
    let a := tabulate .packed .two 2 3 fun i j => i * j + 1
    let a' := tabulate .batched .two 3 3 fun i j => (1 - i) * j + 1
    let x := tabulate .generic .two 2 3 fun i j => i + j
    let l := tabulate .packed .two 2 3 fun i j => i + j
    let l' := tabulate .batched .two 2 3 fun i j => i + j
    SameSpan a a' ∧
    (∀ wanted wanted' pacer pacer',
      Ends (a.split wanted pacer) (wanted ≠ .nothing ∧ ¬ Fits .packed a.rows a.rows)
        (pacer.stopRow a.rows ≠ none)
        fun s d => Ends (a'.split wanted' pacer')
          (wanted' ≠ .nothing ∧ ¬ Fits .batched a'.rows a'.rows) (pacer'.stopRow a'.rows ≠ none)
          fun s' d' => leadingColumns (s.1.grid a.prime s.1.rows a.columns) =
              leadingColumns (s'.1.grid a.prime s'.1.rows a.columns) ∧
            ∀ b ∈ d.basis, ∀ b' ∈ d'.basis,
              b.pivotColumns.toFinset = b'.pivotColumns.toFinset ∧
              ∀ cachedPacer cachedPacer',
                Ends (b.preimages l cachedPacer) (¬ Fits .packed x.rows a.rows)
                  (cachedPacer.stopRow b.rank ≠ none)
                  fun t _ => Ends (b'.preimages l' cachedPacer') (¬ Fits .batched x.rows a'.rows)
                    (cachedPacer'.stopRow b'.rank ≠ none)
                    fun t' _ => t.1.Same t'.1 ∧ a.Remainders x t.1) ∧
    ∀ pacer pacer',
      Ends (a.preimages l pacer) (¬ (Fits .packed x.rows a.rows ∧ Fits .packed a.rows a.rows))
        (pacer.stopRow a.rows ≠ none)
        fun s _ => Ends (a'.preimages l' pacer')
          (¬ (Fits .batched x.rows a'.rows ∧ Fits .batched a'.rows a'.rows))
          (pacer'.stopRow a'.rows ≠ none)
          fun s' _ => s.residues.Same s'.residues ∧ a.Remainders x s.residues := by
  intro a a' x l l'
  have ha : a.Shaped .two 2 3 :=
    tabulate_shaped (by decide) (by decide) (by decide) (by decide) _
  have ha' : a'.Shaped .two 3 3 :=
    tabulate_shaped (by decide) (by decide) (by decide) (by decide) _
  have hx : x.Shaped .two 2 3 :=
    tabulate_shaped (by decide) (by decide) (by decide) (by decide) _
  -- The rows of `a` in the opposite order, and the first one once more.
  have row (i : Nat) (hi : i < 3) : a'.vec .two 3 i = a.vec .two 3 (1 - i) := by
    have entries : a.vec .two 3 (1 - i) = _ :=
      vec_tabulate (by decide) (by decide) (by decide) (by decide) _ (by omega)
    have entries' : a'.vec .two 3 i = _ :=
      vec_tabulate (by decide) (by decide) (by decide) (by decide) _ hi
    rw [entries, entries']
  have rows : Set.range (a'.grid .two 3 3).row = Set.range (a.grid .two 2 3).row := by
    rw [range_row, range_row]
    ext v
    constructor
    · rintro ⟨i, hi, rfl⟩
      exact ⟨1 - i, Set.mem_Iio.mpr (by omega), (row i hi).symm⟩
    · rintro ⟨i, hi, rfl⟩
      have inside : i < 2 := hi
      refine ⟨1 - i, Set.mem_Iio.mpr (by omega), (row (1 - i) (by omega)).trans ?_⟩
      have back : 1 - (1 - i) = i := by omega
      rw [back]
  have same : SameSpan a a' := ha.sameSpan ha' (congrArg (Submodule.span (Residue .two)) rows)
  exact ⟨same, reductions_modulo_row_space ha.wellFormed ha'.wellFormed same hx.wellFormed
    (hx.prime.trans ha.prime.symm) (hx.columns.trans ha.columns.symm)
    (recode_tabulate (by decide) (by decide) (by decide) (by decide) (by decide) (by decide) _)
    (recode_tabulate (by decide) (by decide) (by decide) (by decide) (by decide) (by decide) _)⟩

end RowMatrix

end RowReduction
