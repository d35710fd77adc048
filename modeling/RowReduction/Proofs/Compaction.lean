import Mathlib
import RowReduction.Proofs.Elimination
import RowReduction.Proofs.Reachable

/-!
Keeping a list of rows in place, all at once or one after the other. A row moves up over rows that
were read before it, so the rows from the last kept one on are still those of the matrix. Both ways
leave the same matrix, and a list that does not increase or leaves the range is never accepted.
-/
namespace RowReduction

variable {e : Encoding} {p : SmallPrime} {r n : Nat}

namespace KeptRows

/-- Keeps the rows of a list one after the other. -/
def keepEach (m : RowMatrix e) (keep : List Nat) : Checked (KeptRows × RowMatrix e) :=
  keep.foldlM (fun s row => s.1.keep s.2 row) (start, m)

/-- Keeps the rows of a list one after the other and cuts off what is behind them. -/
def keepAll [Storage.Memory] (m : RowMatrix e) (keep : List Nat) :
    Checked (Outcome (RowMatrix e) StorageError Unit) := do
  let (kept, moved) ← keepEach m keep
  return kept.finish moved

end KeptRows

namespace RowMatrix

section

variable [Storage.Memory]

/-- The state `s` in which the rows `kept` of `m` have been kept: they stand at the front, and what
does not come before any of them has not been touched. -/
structure Compacts (m : RowMatrix e) (p : SmallPrime) (r n : Nat) (kept : List Nat)
    (s : KeptRows × RowMatrix e) : Prop where
  shaped : s.2.Shaped p r n
  next : s.1.next = kept.length
  placed : ∀ t k, kept[t]? = some k → s.2.vec p n t = m.vec p n k
  untouched : ∀ i, (∀ k ∈ kept, k ≤ i) → s.2.vec p n i = m.vec p n i

variable {m : RowMatrix e} {kept : List Nat} {s : KeptRows × RowMatrix e}

theorem Shaped.compacts (h : m.Shaped p r n) : m.Compacts p r n [] (.start, m) :=
  ⟨h, rfl, by simp, fun _ _ => rfl⟩

/-- The row that is kept next has not been touched, and the place that it moves to is not behind
it. -/
theorem Compacts.keep_ok (h : m.Compacts p r n kept s) {row : Nat} (inside : row < r)
    (ahead : kept.length ≤ row) (after : ∀ k ∈ kept, k < row) :
    ∃ s', s.1.keep s.2 row = .ok s' ∧ m.Compacts p r n (kept ++ [row]) s' := by
  have source := h.untouched row fun k member => Nat.le_of_lt (after k member)
  rw [← h.next] at ahead
  obtain ⟨moved, call, shaped, rows⟩ := h.shaped.keep_ok s.1 inside ahead
  refine ⟨_, call, shaped, ?_, ?_, ?_⟩
  · simp [h.next]
  · intro t k place
    rw [rows, h.next]
    by_cases last : t = kept.length
    · subst last
      obtain rfl : row = k := by simpa using place
      rw [Function.update_self, source]
    · have earlier : t < kept.length := by
        have := (List.getElem?_eq_some_iff.mp place).1
        simp at this
        omega
      rw [List.getElem?_append_left earlier] at place
      rw [Function.update_of_ne last, h.placed t k place]
  · intro i behind
    simp only [List.mem_append, List.mem_singleton] at behind
    have later : row ≤ i := behind row (.inr rfl)
    rw [rows]
    by_cases here : i = s.1.next
    · obtain rfl : i = row := by omega
      rw [← here, Function.update_self, source]
    · rw [Function.update_of_ne here, h.untouched i fun k member => behind k (.inl member)]

/-- Keeping the rows of an increasing list one after the other never stops. The rows kept so far are
fewer than the number of the next one, so it is not overtaken. -/
theorem Shaped.keepEach_ok (h : m.Shaped p r n) (keep : List Nat)
    (increasing : keep.Pairwise (· < ·)) (inside : ∀ k ∈ keep, k < r) :
    ∃ s, KeptRows.keepEach m keep = .ok s ∧ m.Compacts p r n keep s := by
  induction keep using List.reverseRecOn with
  | nil => exact ⟨_, rfl, h.compacts⟩
  | append_singleton kept row ih =>
    obtain ⟨increasing, -, after⟩ := List.pairwise_append.mp increasing
    simp only [List.mem_singleton, forall_eq] at after
    simp only [List.mem_append, List.mem_singleton] at inside
    obtain ⟨s, run, holds⟩ := ih increasing fun k member => inside k (.inl member)
    obtain ⟨s', last, holds'⟩ := holds.keep_ok (inside row (.inr rfl))
      (Shaped.length_le_of_increasing increasing after) after
    refine ⟨s', ?_, holds'⟩
    rw [KeptRows.keepEach] at run ⊢
    simp [List.foldlM_append, run, last, bind, Except.bind, pure, Except.pure]

/-- A list of rows that is accepted increases and stays in range. -/
theorem Shaped.increasing_of_moveRows (h : m.Shaped p r n) {position : Nat} {last : Option Nat}
    {keep : List Nat} {m' : RowMatrix e} (call : m.moveRows position last keep = .ok m') :
    (last.toList ++ keep).IsChain (· < ·) ∧ ∀ k ∈ keep, k < r := by
  induction keep generalizing m position last with
  | nil => cases last <;> simp
  | cons old rest ih =>
    obtain ⟨-, inside, order, moved, shaped, later⟩ := h.of_moveRows_cons call
    obtain ⟨chain, range⟩ := ih shaped later
    constructor
    · cases last with
      | none => exact chain
      | some l => exact .cons_cons (by simpa using order) chain
    · exact List.forall_mem_cons.mpr ⟨inside, range⟩

/-- Moving rows breaks no rule but the two about their numbers. -/
theorem Shaped.moveRows_returns (h : m.Shaped p r n) (position : Nat) (last : Option Nat)
    (keep : List Nat) : (∃ m', m.moveRows position last keep = .ok m') ∨
      m.moveRows position last keep = .error .keptRowOutOfRange ∨
      m.moveRows position last keep = .error .keptRowsNotIncreasing := by
  induction keep generalizing m position last with
  | nil => exact .inl ⟨m, rfl⟩
  | cons old rest ih =>
    by_cases range : position ≤ old ∧ old < m.rows
    · by_cases order : last.all (· < old) = true
      · obtain ⟨moved, step, shaped, -⟩ := h.moveRows_cons range.1 (h.rows ▸ range.2) order rest
        rw [step]
        exact ih shaped (position + 1) (some old)
      · exact .inr (.inr (by simp [moveRows, require, range, order, bind, Except.bind]))
    · exact .inr (.inl (by simp [moveRows, require, range, bind, Except.bind]))

/-- `left` consists of the rows of `m` that the list names, in its order. -/
structure Selects (m left : RowMatrix e) (keep : List Nat) : Prop where
  prime : left.prime = m.prime
  columns : left.columns = m.columns
  rows : left.rows = keep.length
  entry : ∀ t k, keep[t]? = some k → ∀ j, left.entry t j = m.entry k j
  toLists : left.toLists = keep.map m.rowEntries

theorem Shaped.selects (h : m.Shaped p r n) {keep : List Nat} (inside : ∀ k ∈ keep, k < r)
    {left : RowMatrix e} (h' : left.Shaped p keep.length n)
    (placed : ∀ t k, keep[t]? = some k → left.vec p n t = m.vec p n k) : m.Selects left keep where
  prime := h'.prime.trans h.prime.symm
  columns := h'.columns.trans h.columns.symm
  rows := h'.rows
  entry t k place := by
    have position := (List.getElem?_eq_some_iff.mp place).1
    exact h.entry_congr h' (inside k (List.mem_of_getElem? place)) position (placed t k place)
  toLists := by
    rw [h'.toLists_eq]
    apply List.ext_getElem
    · simp
    · intro t position _
      have listed : t < keep.length := by simpa using position
      have row := inside keep[t] (List.getElem_mem listed)
      simp [placed t keep[t] (List.getElem?_eq_getElem listed), h.rowEntries_eq row]

/-- Both ways of keeping rows cut off the same rows. -/
theorem Compacts.keepAll_eq {keep : List Nat} (h : m.Compacts p r n keep s)
    (run : KeptRows.keepEach m keep = .ok s) (fewer : keep.length ≤ r) {left : RowMatrix e}
    (h' : left.Shaped p keep.length n)
    (placed : ∀ t k, keep[t]? = some k → left.vec p n t = m.vec p n k) :
    KeptRows.keepAll m keep = .ok ⟨left, .ok ()⟩ := by
  obtain ⟨cut, resized, shaped, rows⟩ := h.shaped.resize_ok fewer
  have same : cut = left := by
    apply shaped.ext h'
    intro t position
    have place := List.getElem?_eq_getElem position
    rw [rows t position, h.placed t _ place, placed t _ place]
  rw [KeptRows.keepAll, run]
  simp only [bind, Except.bind, KeptRows.finish, h.next, resized, same]
  rfl

/-- The rows of the list are left, whether they are kept at once or one after the other. -/
theorem Shaped.keeps (h : m.Shaped p r n) (keep : List Nat) (increasing : keep.Pairwise (· < ·))
    (inside : ∀ k ∈ keep, k < r) :
    ∃ left, m.keepRows keep = .ok ⟨left, .ok ()⟩ ∧ m.Selects left keep ∧
      KeptRows.keepAll m keep = .ok ⟨left, .ok ()⟩ := by
  obtain ⟨left, call, shaped, placed⟩ := h.keepRows_ok keep increasing inside
  obtain ⟨s, run, holds⟩ := h.keepEach_ok keep increasing inside
  exact ⟨left, call, h.selects inside shaped placed,
    holds.keepAll_eq run (length_le_of_increasing increasing inside) shaped placed⟩

/-- After a row was kept, the rows from it on are as they were. -/
theorem Shaped.keepEach_untouched (h : m.Shaped p r n) {earlier : List Nat} {row : Nat}
    (increasing : (earlier ++ [row]).Pairwise (· < ·)) (inside : ∀ k ∈ earlier ++ [row], k < r) :
    ∃ kept moved, KeptRows.keepEach m (earlier ++ [row]) = .ok (kept, moved) ∧ moved.rows = r ∧
      ∀ i j, row ≤ i → i < r → moved.entry i j = m.entry i j := by
  obtain ⟨⟨kept, moved⟩, run, holds⟩ := h.keepEach_ok _ increasing inside
  refine ⟨kept, moved, run, holds.shaped.rows, ?_⟩
  intro i j behind stored
  have before := (List.pairwise_append.mp increasing).2.2
  refine h.entry_congr holds.shaped stored stored (holds.untouched i ?_) j
  intro k member
  rcases List.mem_append.mp member with listed | last
  · exact Nat.le_trans (Nat.le_of_lt (before k listed row List.mem_cons_self)) behind
  · exact List.mem_singleton.mp last ▸ behind

theorem Shaped.increasing_of_keepRows (h : m.Shaped p r n) {keep : List Nat}
    {outcome : Outcome (RowMatrix e) StorageError Unit} (call : m.keepRows keep = .ok outcome) :
    keep.Pairwise (· < ·) ∧ ∀ k ∈ keep, k < r := by
  simp only [keepRows, bind_eq_ok] at call
  obtain ⟨moved, run, -⟩ := call
  obtain ⟨chain, inside⟩ := h.increasing_of_moveRows run
  exact ⟨List.isChain_iff_pairwise.mp chain, inside⟩

/-- Rows are kept in place exactly if their numbers increase and stay in range; any other list stops
at one of two rules. What is left is the named rows with all their entries. Keeping the same rows
one after the other leaves the same matrix, and after each of them the rows from it on hold what
they held. -/
theorem keepRows_compacts {m : RowMatrix e} (reachable : Reachable ⟨e, m⟩) (keep : List Nat) :
    ((∃ left, m.keepRows keep = .ok ⟨left, .ok ()⟩) ↔
      keep.Pairwise (· < ·) ∧ ∀ k ∈ keep, k < m.rows) ∧
    ((∃ left, m.keepRows keep = .ok ⟨left, .ok ()⟩) ∨
      m.keepRows keep = .error .keptRowOutOfRange ∨
      m.keepRows keep = .error .keptRowsNotIncreasing) ∧
    ∀ left, m.keepRows keep = .ok ⟨left, .ok ()⟩ →
      m.Selects left keep ∧ KeptRows.keepAll m keep = .ok ⟨left, .ok ()⟩ ∧
      ∀ earlier row, earlier ++ [row] <+: keep → ∃ kept moved,
        KeptRows.keepEach m (earlier ++ [row]) = .ok (kept, moved) ∧ moved.rows = m.rows ∧
        ∀ i j, row ≤ i → i < m.rows → moved.entry i j = m.entry i j := by
  have h : m.Shaped m.prime m.rows m.columns := reachable.wellFormed.shaped
  have accepted (increasing : keep.Pairwise (· < ·)) (inside : ∀ k ∈ keep, k < m.rows) :
      ∃ left, m.keepRows keep = .ok ⟨left, .ok ()⟩ := by
    obtain ⟨left, call, -⟩ := h.keeps keep increasing inside
    exact ⟨left, call⟩
  refine ⟨?accepts, ?stops, ?leaves⟩
  case accepts =>
    constructor
    · rintro ⟨left, call⟩
      exact h.increasing_of_keepRows call
    · rintro ⟨increasing, inside⟩
      exact accepted increasing inside
  case stops =>
    rcases h.moveRows_returns 0 none keep with ⟨moved, run⟩ | stopped | stopped
    · obtain ⟨chain, inside⟩ := h.increasing_of_moveRows run
      exact .inl (accepted (List.isChain_iff_pairwise.mp chain) inside)
    · exact .inr (.inl (by simp [keepRows, stopped, bind, Except.bind]))
    · exact .inr (.inr (by simp [keepRows, stopped, bind, Except.bind]))
  case leaves =>
    intro left call
    obtain ⟨increasing, inside⟩ := h.increasing_of_keepRows call
    obtain ⟨kept, run, selects, all⟩ := h.keeps keep increasing inside
    cases run.symm.trans call
    refine ⟨selects, all, ?_⟩
    intro earlier row begins
    exact h.keepEach_untouched (increasing.sublist begins.sublist)
      fun k member => inside k (begins.subset member)

end

/-- Two rows of three that are wider than a word, and a list that goes back. -/
theorem keepRows_compacts_of_sample :
    let sample := tabulate .packed .two 3 70 fun i j => i * j + i
    Reachable ⟨.packed, sample⟩ ∧
      (∃ left, sample.keepRows [0, 2] = .ok ⟨left, .ok ()⟩ ∧ sample.Selects left [0, 2] ∧
        KeptRows.keepAll sample [0, 2] = .ok ⟨left, .ok ()⟩) ∧
      ¬ ∃ left, sample.keepRows [2, 0] = .ok ⟨left, .ok ()⟩ := by
  intro sample
  have shaped : sample.Shaped .two 3 70 :=
    tabulate_shaped (by decide) (by decide) (by decide) (by decide) _
  have reachable := shaped.wellFormed.reachable
  obtain ⟨accepts, -, leaves⟩ := keepRows_compacts reachable [0, 2]
  obtain ⟨left, call⟩ := accepts.mpr (by simp [shaped.rows])
  obtain ⟨selects, all, -⟩ := leaves left call
  obtain ⟨backwards, -⟩ := keepRows_compacts reachable [2, 0]
  refine ⟨reachable, ⟨left, call, selects, all⟩, ?_⟩
  rw [backwards]
  simp

end RowMatrix

end RowReduction
