import Mathlib
import RowReduction.Proofs.Operations

/-!
Copying rows, dropping rows at the end, and keeping a list of rows. A row that is kept only ever
moves up, so it is read before anything is written over it.
-/
namespace RowReduction.RowMatrix.Shaped

variable [Storage.Memory] {e : Encoding} {p : SmallPrime} {r r' n : Nat} {m other : RowMatrix e}

theorem replaceRow_shaped (h : m.Shaped p r n) {t : Nat} (ht : t < r) {cells : Row e}
    (sound : Row.Sound e p n cells) : (m.replaceRow t cells).Shaped p r n := by
  obtain ⟨wf, rfl, rfl, rfl⟩ := h
  exact ⟨wellFormed_replaceRow wf ht sound, rfl, rfl, rfl⟩

theorem vec_replaceRow (h : m.Shaped p r n) {t : Nat} (ht : t < r) {cells : Row e}
    (sound : Row.Sound e p n cells) :
    (m.replaceRow t cells).vec p n = Function.update (m.vec p n) t (cells.vec p n) := by
  obtain ⟨wf, rfl, rfl, rfl⟩ := h
  funext i j
  simp only [vec, read_replaceRow wf ht sound i j.isLt]
  by_cases target : i = t
  · rw [if_pos target, target, Function.update_self]
    rfl
  · rw [if_neg target, Function.update_of_ne target]
    rfl

theorem copyRow_ok (h : m.Shaped p r n) {t s : Nat} (ht : t < r) (hs : s < r) :
    ∃ m', m.copyRow t s = .ok m' ∧ m'.Shaped p r n ∧
      m'.vec p n = Function.update (m.vec p n) t (m.vec p n s) := by
  have inside : require (t < m.rows && s < m.rows) .rowPairOutOfRange = .ok () :=
    require_eq_ok.mpr (by simp [h.rows, ht, hs])
  refine ⟨m.replaceRow t (m.row s), ?_, h.replaceRow_shaped ht (h.sound hs), ?_⟩
  · simp only [copyRow, inside, bind, Except.bind]
    rfl
  · rw [h.vec_replaceRow ht (h.sound hs), h.row_vec hs]

theorem copyRowOf_ok (h : m.Shaped p r n) (h' : other.Shaped p r' n) {t s : Nat} (ht : t < r)
    (hs : s < r') :
    ∃ m', m.copyRowOf other t s = .ok m' ∧ m'.Shaped p r n ∧
      m'.vec p n = Function.update (m.vec p n) t (other.vec p n s) := by
  have target : m.requireRow t = .ok () := require_eq_ok.mpr (by simpa [h.rows] using ht)
  have source : other.requireRow s = .ok () := require_eq_ok.mpr (by simpa [h'.rows] using hs)
  refine ⟨m.replaceRow t (other.row s), ?_, h.replaceRow_shaped ht (h'.sound hs), ?_⟩
  · simp only [copyRowOf, h.requireAlike_ok h', target, source, bind, Except.bind]
    rfl
  · rw [h.vec_replaceRow ht (h'.sound hs), h'.row_vec hs]

theorem size_lt (h : m.Shaped p r n) : r * m.rowCells < Storage.allocationLimit := by
  obtain ⟨wf, rfl, rfl, rfl⟩ := h
  have bytes : m.cells.size ≤ m.cells.size * e.cellBytes :=
    Nat.le_mul_of_pos_right _ (by cases e <;> decide)
  rw [← wf.size]
  exact Nat.lt_of_le_of_lt bytes wf.allocated

theorem length_eq {rows stride : Nat} (small : rows * stride < Storage.allocationLimit) :
    Storage.length rows stride = rows * stride := by
  have limit := Storage.allocationLimit_le_maxSize
  exact Nat.min_eq_left (by omega)

theorem resize_ok (h : m.Shaped p r n) (fewer : r' ≤ r) :
    ∃ m', m.resize r' = ⟨m', .ok ()⟩ ∧ m'.Shaped p r' n ∧
      ∀ i, i < r' → m'.vec p n i = m.vec p n i := by
  have small := h.size_lt
  obtain ⟨wf, rfl, rfl, rfl⟩ := h
  have cells : r' * m.rowCells ≤ m.rows * m.rowCells := Nat.mul_le_mul_right _ fewer
  have length : Storage.length r' m.rowCells = r' * m.rowCells := length_eq (by omega)
  have kept : r' * m.rowCells ≤ m.cells.size := by
    rw [wf.size]
    exact cells
  have row_kept (i : Nat) (hi : i < r') :
      ({ m with rows := r', cells := m.cells.extract 0 (r' * m.rowCells) } : RowMatrix e).row i =
        m.row i := by
    apply Array.ext_getElem?
    intro k
    rw [getElem?_row, getElem?_row]
    change (if k < m.rowCells then
      (m.cells.extract 0 (r' * m.rowCells))[i * m.rowCells + k]? else none) = _
    split
    · have position : i * m.rowCells + m.rowCells ≤ r' * m.rowCells := by
        rw [← Nat.succ_mul]
        exact Nat.mul_le_mul_right _ hi
      rw [Array.getElem?_extract, Nat.min_eq_left kept, if_pos (by omega), Nat.zero_add]
    · rfl
  have resized : m.resize r' =
      ⟨{ m with rows := r', cells := m.cells.extract 0 (r' * m.rowCells) }, .ok ()⟩ := by
    simp only [resize, resizeCells, length, if_pos kept]
  have result : ({ m with rows := r', cells := m.cells.extract 0 (r' * m.rowCells) } :
      RowMatrix e).WellFormed := by
    have size : (m.cells.extract 0 (r' * m.rowCells)).size = r' * m.rowCells := by
      rw [Array.size_extract]
      omega
    refine ⟨wf.supported, Nat.le_trans fewer wf.rows_le, wf.columns_le, size, ?_, ?_⟩
    · apply Nat.lt_of_le_of_lt _ wf.allocated
      apply Nat.mul_le_mul_right
      rw [size, wf.size]
      exact cells
    · intro i hi
      rw [row_kept i hi]
      exact wf.sound i (Nat.lt_of_lt_of_le hi fewer)
  refine ⟨_, resized, ⟨result, rfl, rfl, rfl⟩, ?_⟩
  intro i hi
  funext j
  have entries := result.read_eq hi j.isLt
  rw [row_kept i hi, ← wf.read_eq (Nat.lt_of_lt_of_le hi fewer) j.isLt] at entries
  exact congrArg (Nat.cast (R := Residue m.prime)) entries

omit [Storage.Memory] in
/-- An increasing list has at most as many numbers as lie below its bound. -/
theorem length_le_of_increasing {keep : List Nat} (increasing : keep.Pairwise (· < ·))
    (inside : ∀ k ∈ keep, k < r) : keep.length ≤ r := by
  have distinct : keep.Nodup := increasing.imp Nat.ne_of_lt
  have among : keep ⊆ List.range r := fun k member => List.mem_range.mpr (inside k member)
  simpa using (distinct.subperm among).length_le

/-- A row that is kept moves up to the next free position, unless it stands there already. -/
theorem move_ok (h : m.Shaped p r n) {t s : Nat} (ahead : t ≤ s) (hs : s < r) :
    ∃ moved : RowMatrix e,
      (∀ {α : Type} (next : RowMatrix e → Checked α),
        (if t = s then pure m >>= next else m.copyRow t s >>= next) = next moved) ∧
      moved.Shaped p r n ∧ moved.vec p n = Function.update (m.vec p n) t (m.vec p n s) := by
  by_cases same : t = s
  · refine ⟨m, fun next => if_pos same, h, ?_⟩
    rw [same, Function.update_eq_self]
  · obtain ⟨moved, copied, shaped, rows⟩ := h.copyRow_ok (Nat.lt_of_le_of_lt ahead hs) hs
    refine ⟨moved, ?_, shaped, rows⟩
    intro α next
    rw [if_neg same, copied]
    rfl

/-- Moving a row that is in range and behind the one moved before. -/
theorem moveRows_cons (h : m.Shaped p r n) {position old : Nat} {last : Option Nat}
    (ready : position ≤ old) (inside : old < r) (order : last.all (· < old) = true)
    (rest : List Nat) :
    ∃ moved : RowMatrix e, m.moveRows position last (old :: rest) =
        moved.moveRows (position + 1) (some old) rest ∧
      moved.Shaped p r n ∧ moved.vec p n = Function.update (m.vec p n) position (m.vec p n old) := by
  have range : require (position ≤ old && old < m.rows) .keptRowOutOfRange = .ok () :=
    require_eq_ok.mpr (by simp [h.rows, inside, ready])
  have increases : require (last.all (· < old)) .keptRowsNotIncreasing = .ok () :=
    require_eq_ok.mpr order
  obtain ⟨moved, step, shaped, rows⟩ := h.move_ok ready inside
  refine ⟨moved, ?_, shaped, rows⟩
  rw [moveRows, range, increases]
  exact step _

/-- Moving rows up: what was in the rows of the list stands from `position` on, in order. -/
theorem moveRows_ok (keep : List Nat) (h : m.Shaped p r n) (position : Nat) (last : Option Nat)
    (increasing : keep.Pairwise (· < ·)) (inside : ∀ k ∈ keep, k < r)
    (ahead : ∀ k ∈ keep, position ≤ k) (after : ∀ k ∈ keep, ∀ l ∈ last, l < k) :
    ∃ m', m.moveRows position last keep = .ok m' ∧ m'.Shaped p r n ∧
      (∀ i, i < position → m'.vec p n i = m.vec p n i) ∧
      ∀ t k, keep[t]? = some k → m'.vec p n (position + t) = m.vec p n k := by
  induction keep generalizing m position last with
  | nil => exact ⟨m, rfl, h, fun _ _ => rfl, by simp⟩
  | cons old rest ih =>
    obtain ⟨above, increasing⟩ := List.pairwise_cons.mp increasing
    have order : last.all (· < old) = true := by
      rw [Option.all_eq_true]
      intro l hl
      exact decide_eq_true (after old List.mem_cons_self l hl)
    obtain ⟨moved, step, shaped, rows⟩ := h.moveRows_cons (ahead old List.mem_cons_self)
      (inside old List.mem_cons_self) order rest
    obtain ⟨m', run, final, before, placed⟩ := ih shaped (position + 1) (some old)
      increasing (fun k hk => inside k (List.mem_cons_of_mem old hk))
      (fun k hk => by
        have := above k hk
        have := ahead old List.mem_cons_self
        omega)
      (fun k hk l hl => by
        rw [← Option.mem_some.mp hl]
        exact above k hk)
    refine ⟨m', step.trans run, final, ?_, ?_⟩
    · intro i hi
      rw [before i (by omega), rows, Function.update_of_ne (by omega)]
    · intro t k hk
      cases t with
      | zero =>
        have first : old = k := by simpa using hk
        rw [Nat.add_zero, before position (Nat.lt_succ_self position), rows, Function.update_self,
          first]
      | succ t =>
        have later : rest[t]? = some k := by simpa using hk
        have apart : k ≠ position := by
          have := above k (List.mem_of_getElem? later)
          have := ahead old List.mem_cons_self
          omega
        rw [← Nat.add_assoc, Nat.add_right_comm, placed t k later, rows,
          Function.update_of_ne apart]

/-- Keeping an increasing list of rows leaves these rows in their order. -/
theorem keepRows_ok (keep : List Nat) (h : m.Shaped p r n) (increasing : keep.Pairwise (· < ·))
    (inside : ∀ k ∈ keep, k < r) :
    ∃ m', m.keepRows keep = .ok ⟨m', .ok ()⟩ ∧ m'.Shaped p keep.length n ∧
      ∀ t k, keep[t]? = some k → m'.vec p n t = m.vec p n k := by
  obtain ⟨moved, run, shaped, _, placed⟩ := moveRows_ok keep h 0 none
    increasing inside (fun k _ => Nat.zero_le k) (by simp)
  obtain ⟨m', cut, final, kept⟩ :=
    shaped.resize_ok (length_le_of_increasing increasing inside)
  refine ⟨m', ?_, final, ?_⟩
  · simp only [keepRows, run, bind, Except.bind, cut]
    rfl
  · intro t k hk
    have position : t < keep.length := (List.getElem?_eq_some_iff.mp hk).1
    rw [kept t position, ← placed t k hk, Nat.zero_add]

end RowReduction.RowMatrix.Shaped
