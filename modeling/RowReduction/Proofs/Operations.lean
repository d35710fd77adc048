import Mathlib
import RowReduction.Proofs.EchelonForm
import RowReduction.Proofs.RowLeading
import RowReduction.Proofs.WellFormed
import RowReduction.RowMatrix.RowOperations

/-!
What the row operations do to the rows of a stored matrix, read as vectors over the field. Each
operation has one statement, the same for all encodings: called within its rules it succeeds, keeps
the shape and the representation invariant, and changes one row as named.
-/
namespace RowReduction

def Row.vec {e : Encoding} (row : Row e) (p : SmallPrime) (n : Nat) : Fin n → Residue p :=
  fun j => (Row.entry e row j : Residue p)

namespace RowMatrix

variable [Storage.Memory] {e : Encoding} {p : SmallPrime} {r n : Nat}

/-- A well-formed matrix over `p` with `r` rows and `n` columns. -/
structure Shaped (m : RowMatrix e) (p : SmallPrime) (r n : Nat) : Prop where
  wellFormed : m.WellFormed
  prime : m.prime = p
  rows : m.rows = r
  columns : m.columns = n

def vec (m : RowMatrix e) (p : SmallPrime) (n i : Nat) : Fin n → Residue p :=
  fun j => (m.read i j : Residue p)

/-- The first `r` rows as a matrix over the field. -/
def grid (m : RowMatrix e) (p : SmallPrime) (r n : Nat) : Matrix (Fin r) (Fin n) (Residue p) :=
  Matrix.of fun i => m.vec p n i

theorem WellFormed.shaped {m : RowMatrix e} (wf : m.WellFormed) :
    m.Shaped m.prime m.rows m.columns :=
  ⟨wf, rfl, rfl, rfl⟩

namespace Shaped

variable {m : RowMatrix e}

theorem supported (h : m.Shaped p r n) : e.canStore p = true := by
  rw [← h.prime]
  exact h.wellFormed.supported

theorem rows_le (h : m.Shaped p r n) : r ≤ Storage.maxSize := by
  rw [← h.rows]
  exact h.wellFormed.rows_le

theorem columns_le (h : m.Shaped p r n) : n ≤ Storage.maxSize := by
  rw [← h.columns]
  exact h.wellFormed.columns_le

theorem read_lt (h : m.Shaped p r n) {i j : Nat} (hi : i < r) (hj : j < n) :
    m.read i j < p.val := by
  obtain ⟨wf, rfl, rfl, rfl⟩ := h
  exact wf.read_lt hi hj

theorem val_vec (h : m.Shaped p r n) {i : Nat} (hi : i < r) (j : Fin n) :
    (m.vec p n i j).val = m.read i j :=
  ZMod.val_cast_of_lt (h.read_lt hi j.isLt)

theorem vec_eq_zero (h : m.Shaped p r n) {i : Nat} (hi : i < r) (j : Fin n) :
    m.vec p n i j = 0 ↔ m.read i j = 0 :=
  p.natCast_eq_zero (h.read_lt hi j.isLt)

theorem sound (h : m.Shaped p r n) {i : Nat} (hi : i < r) : Row.Sound e p n (m.row i) := by
  obtain ⟨wf, rfl, rfl, rfl⟩ := h
  exact wf.sound i hi

theorem read_eq (h : m.Shaped p r n) {i j : Nat} (hi : i < r) (hj : j < n) :
    m.read i j = Row.entry e (m.row i) j := by
  obtain ⟨wf, rfl, rfl, rfl⟩ := h
  exact wf.read_eq hi hj

theorem ext {m' : RowMatrix e} (h : m.Shaped p r n) (h' : m'.Shaped p r n)
    (same : ∀ i, i < r → m.vec p n i = m'.vec p n i) : m = m' := by
  apply h.wellFormed.ext h'.wellFormed (h.prime.trans h'.prime.symm) (h.rows.trans h'.rows.symm)
    (h.columns.trans h'.columns.symm)
  intro i j hi hj
  rw [h.rows] at hi
  rw [h.columns] at hj
  have entry := congrArg ZMod.val (congrFun (same i hi) ⟨j, hj⟩)
  rwa [h.val_vec hi, h'.val_vec hi] at entry

theorem entry_eq (h : m.Shaped p r n) {i : Nat} (hi : i < r) (j : Fin n) :
    m.entry i j = .ok (m.vec p n i j).val := by
  have column : m.requireColumn j = .ok () := require_eq_ok.mpr (by simp [h.columns])
  have row : m.requireRow i = .ok () := require_eq_ok.mpr (by simpa [h.rows] using hi)
  simp only [entry, column, row, bind, Except.bind, h.val_vec hi]
  rfl

/-- Asking for an entry of two equal rows gives the same answer at every column, in range or not. -/
theorem entry_congr {f : Encoding} {m' : RowMatrix f} {r' i i' : Nat} (h : m.Shaped p r n)
    (h' : m'.Shaped p r' n) (hi : i < r) (hi' : i' < r') (same : m'.vec p n i' = m.vec p n i)
    (j : Nat) : m'.entry i' j = m.entry i j := by
  by_cases inside : j < n
  · rw [h.entry_eq hi ⟨j, inside⟩, h'.entry_eq hi' ⟨j, inside⟩, same]
  · simp [entry, requireColumn, require, h.columns, h'.columns, inside, bind, Except.bind]

theorem leading_eq (h : m.Shaped p r n) {i : Nat} (hi : i < r) :
    m.leading i =
      .ok ((EchelonForm.lead (m.vec p n i)).map fun c => (c.val, (m.vec p n i c).val)) := by
  have row : m.requireRow i = .ok () := require_eq_ok.mpr (by simpa [h.rows] using hi)
  have search := Row.leading_leads (h.sound hi)
  have entry (j : Fin n) : m.vec p n i j = 0 ↔ Row.entry e (m.row i) j = 0 := by
    rw [h.vec_eq_zero hi, h.read_eq hi j.isLt]
  simp only [leading, row, bind, Except.bind, h.columns]
  generalize Row.leading e (m.row i) n = answer at search ⊢
  congr 1
  cases answer with
  | none =>
    have none_left : EchelonForm.lead (m.vec p n i) = none := by
      rw [EchelonForm.lead_eq_none]
      funext j
      exact (entry j).mpr (search j)
    rw [none_left]
    rfl
  | some found =>
    obtain ⟨j, x⟩ := found
    obtain ⟨rfl, nonzero, before⟩ := search
    have inside : j < n := by
      apply Nat.lt_of_not_le
      intro outside
      exact nonzero ((h.sound hi).padding j outside)
    have leads : EchelonForm.lead (m.vec p n i) = some ⟨j, inside⟩ := by
      rw [EchelonForm.lead_eq_some]
      refine ⟨fun zero => nonzero ((entry _).mp zero), ?_⟩
      intro d hd
      exact (entry d).mpr (before d hd)
    rw [leads, Option.map_some, h.val_vec hi, h.read_eq hi inside]

theorem wellFormed_combine (h : m.Shaped p r n) {t : Nat} (ht : t < r) {source : Row e}
    (sound : Row.Sound e p n source) {c : Nat} (nonzero : c ≠ 0) (small : c < p.val) (start : Nat) :
    (m.combine t source c start).Shaped p r n := by
  obtain ⟨wf, rfl, rfl, rfl⟩ := h
  have sum := Row.sound_accumulate (wf.sound t ht) sound nonzero small start
  exact ⟨wellFormed_replaceRow wf ht sum, rfl, rfl, rfl⟩

theorem vec_combine (h : m.Shaped p r n) {t : Nat} (ht : t < r) {source : Row e}
    (sound : Row.Sound e p n source) {c : Nat} (nonzero : c ≠ 0) (small : c < p.val) {start : Nat}
    (zero : ∀ j, j < start → j < n → Row.entry e source j = 0) :
    (m.combine t source c start).vec p n = Function.update (m.vec p n) t
      (m.vec p n t + (c : Residue p) • source.vec p n) := by
  obtain ⟨wf, rfl, rfl, rfl⟩ := h
  have sum := Row.sound_accumulate (wf.sound t ht) sound nonzero small start
  have before (j : Nat) (hj : j < start) : Row.entry e source j = 0 := by
    by_cases inside : j < m.columns
    · exact zero j hj inside
    · exact sound.padding j (Nat.le_of_not_lt inside)
  funext i j
  simp only [vec, combine, read_replaceRow wf ht sum i j.isLt]
  by_cases target : i = t
  · rw [target, if_pos rfl, Function.update_self,
      Row.entry_accumulate_of_zero (wf.sound t ht) sound nonzero small before,
      ZMod.natCast_mod, Nat.cast_add, Nat.cast_mul, ← wf.read_eq ht j.isLt]
    rfl
  · rw [if_neg target, Function.update_of_ne target]
    rfl

theorem row_vec (h : m.Shaped p r n) {i : Nat} (hi : i < r) :
    (m.row i).vec p n = m.vec p n i := by
  funext j
  rw [vec, h.read_eq hi j.isLt]
  rfl

theorem row_zero_before (h : m.Shaped p r n) {i : Nat} (hi : i < r) {start : Nat}
    (zero : ∀ j : Fin n, j.val < start → m.vec p n i j = 0) (j : Nat) (hj : j < start)
    (inside : j < n) : Row.entry e (m.row i) j = 0 := by
  rw [← h.read_eq hi inside]
  exact (h.vec_eq_zero hi ⟨j, inside⟩).mp (zero ⟨j, inside⟩ hj)

omit [Storage.Memory] in
theorem cast_reduce (p : SmallPrime) (c : Nat) : (p.reduce c : Residue p) = c := by
  rw [SmallPrime.reduce, ZMod.natCast_mod]

omit [Storage.Memory] in
theorem update_add_of_reduce_eq_zero {c : Nat} (vanishes : p.reduce c = 0)
    (rows : Nat → Fin n → Residue p) (t : Nat) (x : Fin n → Residue p) :
    Function.update rows t (rows t + (c : Residue p) • x) = rows := by
  have cast := cast_reduce p c
  rw [vanishes, Nat.cast_zero] at cast
  rw [← cast, zero_smul, add_zero, Function.update_eq_self]

/-- A sum with row `s` of a matrix of the same width, which is zero before `start`. -/
theorem combine_row_ok {other : RowMatrix e} {r' : Nat} (h : m.Shaped p r n)
    (h' : other.Shaped p r' n) {t s c : Nat} (ht : t < r) (hs : s < r')
    (remains : p.reduce c ≠ 0) {start : Nat}
    (zero : ∀ j : Fin n, j.val < start → other.vec p n s j = 0) :
    (m.combine t (other.row s) (p.reduce c) start).Shaped p r n ∧
      (m.combine t (other.row s) (p.reduce c) start).vec p n =
        Function.update (m.vec p n) t (m.vec p n t + (c : Residue p) • other.vec p n s) := by
  have small : p.reduce c < p.val := Nat.mod_lt _ p.pos
  constructor
  · exact h.wellFormed_combine ht (h'.sound hs) remains small start
  · rw [h.vec_combine ht (h'.sound hs) remains small (h'.row_zero_before hs zero),
      cast_reduce, h'.row_vec hs]

/-- Adding a multiple of another row of the same matrix, which is zero before `start`. -/
theorem addRow_ok (h : m.Shaped p r n) {t s : Nat} (ht : t < r) (hs : s < r) (apart : t ≠ s)
    (c start : Nat) (zero : ∀ j : Fin n, j.val < start → m.vec p n s j = 0) :
    ∃ m', m.addRow t s c start = .ok m' ∧ m'.Shaped p r n ∧
      m'.vec p n = Function.update (m.vec p n) t
        (m.vec p n t + (c : Residue p) • m.vec p n s) := by
  unfold addRow
  rw [h.prime]
  by_cases vanishes : p.reduce c = 0
  · refine ⟨m, ?_, h, (update_add_of_reduce_eq_zero vanishes _ t _).symm⟩
    simp only [vanishes, if_true]
    rfl
  · have distinct : require (t != s) .sameRow = .ok () := require_eq_ok.mpr (by simpa using apart)
    have inside : require (t < m.rows && s < m.rows) .rowPairOutOfRange = .ok () :=
      require_eq_ok.mpr (by simp [h.rows, ht, hs])
    refine ⟨_, ?_, h.combine_row_ok h ht hs vanishes zero⟩
    simp only [vanishes, if_false, distinct, inside, bind, Except.bind]
    rfl

variable {other : RowMatrix e} {r' : Nat}

theorem requireAlike_ok (h : m.Shaped p r n) (h' : other.Shaped p r' n) :
    m.requireAlike other = .ok () := by
  have primes : require (m.prime = other.prime) .differentPrimes = .ok () :=
    require_eq_ok.mpr (by simp [h.prime, h'.prime])
  have widths : require (m.columns = other.columns) .differentWidths = .ok () :=
    require_eq_ok.mpr (by simp [h.columns, h'.columns])
  simp only [requireAlike, primes, widths, bind, Except.bind]

theorem checkWidths_ok (h : m.Shaped p r n) (h' : other.Shaped p r' n) :
    checkWidths m.columns other.columns = .ok () :=
  checkWidths_eq_ok.mpr (h.columns.trans h'.columns.symm)

theorem addRowOf_ok (h : m.Shaped p r n) (h' : other.Shaped p r' n) {t s : Nat} (ht : t < r)
    (hs : s < r') (c start : Nat)
    (zero : ∀ j : Fin n, j.val < start → other.vec p n s j = 0) :
    ∃ m', m.addRowOf other t s c start = .ok m' ∧ m'.Shaped p r n ∧
      m'.vec p n = Function.update (m.vec p n) t
        (m.vec p n t + (c : Residue p) • other.vec p n s) := by
  unfold addRowOf
  rw [h.prime]
  by_cases vanishes : p.reduce c = 0
  · refine ⟨m, ?_, h, (update_add_of_reduce_eq_zero vanishes _ t _).symm⟩
    simp only [vanishes, h.requireAlike_ok h', bind, Except.bind]
    split <;> rfl
  · have target : m.requireRow t = .ok () := require_eq_ok.mpr (by simpa [h.rows] using ht)
    have source : other.requireRow s = .ok () := require_eq_ok.mpr (by simpa [h'.rows] using hs)
    refine ⟨_, ?_, h.combine_row_ok h' ht hs vanishes zero⟩
    simp only [vanishes, if_false, h.requireAlike_ok h', target, source, bind, Except.bind, ne_eq,
      not_false_eq_true, or_true, if_true]
    rfl

end Shaped

end RowMatrix

/-- A loop over the first `r` rows, of which each step changes its own row only, changes every row
once. What stays true along the loop is `P`, and `v` tells the rows of a state. -/
theorem foldRows_ok {σ α : Type} {P : σ → Prop} {v : σ → Nat → α} {f : σ → Nat → Checked σ}
    {g : Nat → α → α} {r : Nat}
    (each : ∀ s j, j < r → P s → ∃ s', f s j = .ok s' ∧ P s' ∧
      v s' = Function.update (v s) j (g j (v s j)))
    {s : σ} (start : P s) : ∃ s', (List.range r).foldlM f s = .ok s' ∧ P s' ∧
      ∀ j, v s' j = if j < r then g j (v s j) else v s j := by
  have passes (count : Nat) (inside : count ≤ r) :
      ∃ s', (List.range count).foldlM f s = .ok s' ∧ P s' ∧
        ∀ j, v s' j = if j < count then g j (v s j) else v s j := by
    induction count with
    | zero => exact ⟨s, rfl, start, fun j => (if_neg (Nat.not_lt_zero j)).symm⟩
    | succ count ih =>
      obtain ⟨previous, run, holds, before⟩ := ih (Nat.le_of_succ_le inside)
      obtain ⟨s', last, final, after⟩ := each previous count inside holds
      refine ⟨s', ?_, final, ?_⟩
      · simp only [List.range_succ, List.foldlM_append, run, List.foldlM_cons, List.foldlM_nil,
          bind, Except.bind, last]
        rfl
      · intro j
        simp only [after, before]
        by_cases here : j = count
        · simp [here]
        · have same : j < count + 1 ↔ j < count := by omega
          simp only [Function.update_of_ne here, before, same]
  exact passes r (Nat.le_refl r)

end RowReduction
