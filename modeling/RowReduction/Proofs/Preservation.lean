import Mathlib
import RowReduction.EncodedMatrix
import RowReduction.Proofs.AnsweredCalls
import RowReduction.Proofs.Binary
import RowReduction.Proofs.Histories

/-!
Storage operations outside of their rules. A call that is answered leaves well-formed matrices, even
if it skips a part of a row that is not zero, is refused storage, or is handed a matrix of another
shape. Matrices that are built or read from bytes are well-formed from the start.
-/
namespace RowReduction

namespace RowMatrix

variable [Storage.Memory] {e f : Encoding} {p : SmallPrime} {r r' n : Nat}
  {m m' other : RowMatrix e}

namespace Shaped

theorem of_putEntry (h : m.Shaped p r n) {i j value : Nat}
    (call : m.putEntry i j value = .ok m') : m'.Shaped p r n := by
  obtain ⟨column, row, rfl⟩ := putEntry_eq_ok.mp call
  rw [h.rows] at row
  rw [h.columns] at column
  exact (h.write_ok row column value).1

theorem of_addEntry (h : m.Shaped p r n) {i j value : Nat}
    (call : m.addEntry i j value = .ok m') : m'.Shaped p r n := by
  simp only [addEntry, bind_eq_ok] at call
  obtain ⟨_, _, put⟩ := call
  exact h.of_putEntry put

theorem of_set (h : m.Shaped p r n) (i j value : Nat) : (m.set i j value).state.Shaped p r n := by
  unfold set
  split
  · rename_i inside
    rw [h.rows, h.columns] at inside
    exact (h.write_ok inside.1 inside.2 value).1
  · exact h

theorem of_toIdentity (h : m.Shaped p r n) (call : m.toIdentity = .ok m') : m'.Shaped p r n := by
  have square := call
  simp only [toIdentity, check_bind_eq_ok, require_eq_ok, decide_eq_true_eq] at square
  obtain rfl : r = n := h.rows.symm.trans (square.1.trans h.columns)
  obtain ⟨unit, run, shaped, _⟩ := h.toIdentity_ok
  cases run.symm.trans call
  exact shaped

/-- A sum keeps the shape of its target, whatever it skips of the source. -/
theorem of_addRow (h : m.Shaped p r n) {t s c start : Nat}
    (call : m.addRow t s c start = .ok m') : m'.Shaped p r n := by
  obtain ⟨-, rfl⟩ | ⟨remains, -, target, source, rfl⟩ := addRow_cases call
  · exact h
  · rw [h.rows] at target source
    rw [h.prime] at remains ⊢
    exact h.wellFormed_combine target (h.sound source) remains (Nat.mod_lt _ p.pos) start

theorem of_requireAlike (h : m.Shaped p r n) (wf : other.WellFormed)
    (alike : m.requireAlike other = .ok ()) : other.Shaped p other.rows n := by
  simp only [requireAlike, check_bind_eq_ok, require_eq_ok, decide_eq_true_eq, h.prime,
    h.columns] at alike
  exact ⟨wf, alike.1.symm, rfl, alike.2.symm⟩

theorem of_addRowOf (h : m.Shaped p r n) (wf : other.WellFormed) {t s c start : Nat}
    (call : m.addRowOf other t s c start = .ok m') : m'.Shaped p r n := by
  obtain ⟨-, rfl⟩ | ⟨remains, alike, target, source, rfl⟩ := addRowOf_cases call
  · exact h
  · have shaped := h.of_requireAlike wf alike
    rw [h.rows] at target
    rw [h.prime] at remains ⊢
    exact h.wellFormed_combine target (shaped.sound source) remains (Nat.mod_lt _ p.pos) start

theorem of_copyRow (h : m.Shaped p r n) {t s : Nat} (call : m.copyRow t s = .ok m') :
    m'.Shaped p r n := by
  obtain ⟨target, source, rfl⟩ := copyRow_eq_ok.mp call
  rw [h.rows] at target source
  exact h.replaceRow_shaped target (h.sound source)

theorem of_copyRowOf (h : m.Shaped p r n) (wf : other.WellFormed) {t s : Nat}
    (call : m.copyRowOf other t s = .ok m') : m'.Shaped p r n := by
  obtain ⟨alike, target, source, rfl⟩ := copyRowOf_eq_ok.mp call
  rw [h.rows] at target
  exact h.replaceRow_shaped target ((h.of_requireAlike wf alike).sound source)

theorem of_resize (h : m.Shaped p r n) (size : r' ≤ Storage.maxSize) :
    (m.resize r').state.WellFormed := by
  by_cases fits : Fits e r' n
  · obtain ⟨resized, run, shaped, _⟩ := h.resize_vec size fits
    rw [run]
    exact shaped.wellFormed
  · obtain ⟨_, _, run⟩ := h.resize_refused fits
    rw [run]
    exact h.wellFormed

/-- A list of rows that was moved starts with a row in range, behind the one moved before, and the
rest was moved in its turn. -/
theorem of_moveRows_cons (h : m.Shaped p r n) {position old : Nat} {last : Option Nat}
    {rest : List Nat} (call : m.moveRows position last (old :: rest) = .ok m') :
    position ≤ old ∧ old < r ∧ last.all (· < old) = true ∧
      ∃ moved : RowMatrix e, moved.Shaped p r n ∧
        moved.moveRows (position + 1) (some old) rest = .ok m' := by
  simp only [moveRows, check_bind_eq_ok, require_eq_ok, Bool.and_eq_true, decide_eq_true_eq,
    h.rows] at call
  obtain ⟨⟨ahead, inside⟩, order, call⟩ := call
  refine ⟨ahead, inside, order, ?_⟩
  split at call
  · exact ⟨m, h, call⟩
  · rw [bind_eq_ok] at call
    obtain ⟨moved, copied, call⟩ := call
    exact ⟨moved, h.of_copyRow copied, call⟩

theorem of_moveRows {keep : List Nat} (h : m.Shaped p r n) {position : Nat} {last : Option Nat}
    (room : position ≤ r) (call : m.moveRows position last keep = .ok m') :
    m'.Shaped p r n ∧ position + keep.length ≤ r := by
  induction keep generalizing m position last with
  | nil =>
    cases call
    exact ⟨h, room⟩
  | cons old rest ih =>
    obtain ⟨ahead, inside, -, moved, shaped, later⟩ := h.of_moveRows_cons call
    obtain ⟨final, fewer⟩ := ih shaped (by omega) later
    refine ⟨final, ?_⟩
    rw [List.length_cons]
    omega

theorem of_keepRows (h : m.Shaped p r n) {keep : List Nat}
    {outcome : Outcome (RowMatrix e) StorageError Unit}
    (call : m.keepRows keep = .ok outcome) : outcome.state.WellFormed := by
  simp only [keepRows, bind_eq_ok] at call
  obtain ⟨moved, run, result⟩ := call
  cases result
  obtain ⟨shaped, fewer⟩ := h.of_moveRows (Nat.zero_le r) run
  have limit := h.rows_le
  exact shaped.of_resize (by omega)

theorem of_add (h : m.Shaped p r n) (wf : other.WellFormed) {c : Nat}
    {outcome : Outcome (RowMatrix e) StorageError Unit}
    (call : m.add other c = .ok outcome) : outcome.state.Shaped p r n := by
  simp only [add, check_bind_eq_ok, require_eq_ok] at call
  obtain ⟨_, call⟩ := call
  split at call
  · cases call
    exact h
  · cases call
    exact h
  · split at call
    · cases call
      exact h
    · rw [bind_eq_ok] at call
      obtain ⟨sum, run, result⟩ := call
      cases result
      exact foldlM_keeps (P := fun m : RowMatrix e => m.Shaped p r n)
        (fun _ _ _ shaped added => shaped.of_addRowOf wf added) h run

end Shaped

theorem Shaped.of_new (rows_le : r ≤ Storage.maxSize) (columns_le : n ≤ Storage.maxSize)
    (built : new p r n = pure m) : m.Shaped p r n := by
  obtain ⟨supported, fits, rfl⟩ := new_eq_pure.mp built
  exact blank_shaped supported rows_le columns_le fits

theorem Shaped.of_identity (size : n ≤ Storage.maxSize) (built : identity p n = pure m) :
    m.Shaped p n n := by
  simp only [identity, bind_eq_pure] at built
  obtain ⟨empty, allocated, filled⟩ := built
  obtain ⟨unit, run, shaped, _⟩ := (Shaped.of_new size size allocated).toIdentity_ok
  rw [run] at filled
  cases filled
  exact shaped

theorem Shaped.of_ofLists {rows : List (List Nat)} (rows_le : rows.length ≤ Storage.maxSize)
    (columns_le : n ≤ Storage.maxSize) (built : ofLists p rows n = pure m) :
    m.Shaped p rows.length n := by
  simp only [ofLists, bind_eq_pure] at built
  obtain ⟨empty, allocated, _, _, filled⟩ := built
  cases filled
  exact ((Shaped.of_new rows_le columns_le allocated).fill_ok _).1

theorem Shaped.of_decode {input rest : List UInt8} (read : decode p input = pure (m, rest)) :
    m.Shaped p m.rows m.columns := by
  simp only [decode, Binary.run_bind_eq_pure] at read
  obtain ⟨rows, _, rows_read, columns, _, columns_read, _, _, _, residues, _, _, empty, _, built,
    filled⟩ := read
  cases filled
  have shaped := Shaped.of_new (Binary.le_of_takeWord rows_read)
    (Binary.le_of_takeWord columns_read) (Binary.build_eq_pure.mp built).1
  have final := (shaped.fill_ok fun i j => residues.toArray.getD (i * columns + j) 0).1
  exact ⟨final.wellFormed, final.prime, rfl, rfl⟩

theorem wellFormed_of_decode {input rest : List UInt8}
    (read : decode p input = pure (m, rest)) : m.WellFormed :=
  (Shaped.of_decode read).wellFormed

end RowMatrix

/-- Sizes that an operation asks for are 64-bit numbers. -/
def Operation.Sized {M : Type} : Operation M → Prop
  | resize rows => rows ≤ Storage.maxSize
  | _ => True

/-- An answered operation on well-formed matrices leaves a well-formed one. -/
theorem Operation.run_wellFormed [Storage.Memory] {e : Encoding} {m : RowMatrix e}
    {op : Operation (RowMatrix e)} {outcome : Outcome (RowMatrix e) StorageError Unit}
    (wf : m.WellFormed) (others : ∀ other ∈ op.others, other.WellFormed) (sized : op.Sized)
    (call : op.run m = .ok outcome) : outcome.state.WellFormed := by
  have h := wf.shaped
  have succeeds {changed : Checked (RowMatrix e)} (call : succeed changed = .ok outcome) :
      ∃ m', changed = .ok m' ∧ outcome.state = m' := by
    cases changed with
    | error violation => cases call
    | ok m' =>
      cases call
      exact ⟨m', rfl, rfl⟩
  cases op with
  | put i j value =>
    obtain ⟨m', run, rfl⟩ := succeeds call
    exact (h.of_putEntry run).wellFormed
  | set i j value =>
    cases call
    exact (h.of_set i j value).wellFormed
  | addTo i j value =>
    obtain ⟨m', run, rfl⟩ := succeeds call
    exact (h.of_addEntry run).wellFormed
  | clear =>
    cases call
    have shaped := RowMatrix.blank_shaped h.supported h.rows_le h.columns_le h.fits
    rw [← h.clear_eq] at shaped
    exact shaped.wellFormed
  | toIdentity =>
    obtain ⟨m', run, rfl⟩ := succeeds call
    exact (h.of_toIdentity run).wellFormed
  | addRow target source c start =>
    obtain ⟨m', run, rfl⟩ := succeeds call
    exact (h.of_addRow run).wellFormed
  | addRowOf other target source c start =>
    obtain ⟨m', run, rfl⟩ := succeeds call
    exact (h.of_addRowOf (others other (List.mem_singleton_self other)) run).wellFormed
  | copyRow target source =>
    obtain ⟨m', run, rfl⟩ := succeeds call
    exact (h.of_copyRow run).wellFormed
  | copyRowOf other target source =>
    obtain ⟨m', run, rfl⟩ := succeeds call
    exact (h.of_copyRowOf (others other (List.mem_singleton_self other)) run).wellFormed
  | resize rows =>
    cases call
    exact h.of_resize sized
  | keepRows keep => exact h.of_keepRows call
  | add other c => exact (h.of_add (others other (List.mem_singleton_self other)) call).wellFormed

end RowReduction
