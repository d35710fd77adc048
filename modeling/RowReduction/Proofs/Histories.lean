import Mathlib
import RowReduction.Proofs.Tables
import RowReduction.Proofs.Updates

/-!
Histories of storage operations. Several matrices of one encoding are changed by a sequence of
operations, which may read from each other, and so are tables with the plain arithmetic of rows.
Each operation keeps the two sides equal if the tables say that it was called within its rules, and
by induction on the history so does a whole sequence.
-/
namespace RowReduction

variable {e : Encoding} {p : SmallPrime} {r n : Nat}

/-- A call of a storage operation. `M` is what the second matrix of a call is known by. A plain sum
of rows is one that starts at column 0. -/
inductive Operation (M : Type) where
  | put (i j value : Nat)
  | set (i j value : Nat)
  | addTo (i j value : Nat)
  | clear
  | toIdentity
  | addRow (target source coefficient start : Nat)
  | addRowOf (other : M) (target source coefficient start : Nat)
  | copyRow (target source : Nat)
  | copyRowOf (other : M) (target source : Nat)
  | resize (rows : Nat)
  | keepRows (keep : List Nat)
  | add (other : M) (coefficient : Nat)

namespace Operation

def others {M : Type} : Operation M → List M
  | addRowOf other _ _ _ _ | copyRowOf other _ _ | add other _ => [other]
  | _ => []

def map {M N : Type} (f : M → N) : Operation M → Operation N
  | put i j value => put i j value
  | set i j value => set i j value
  | addTo i j value => addTo i j value
  | clear => clear
  | toIdentity => toIdentity
  | addRow target source coefficient start => addRow target source coefficient start
  | addRowOf other target source coefficient start =>
    addRowOf (f other) target source coefficient start
  | copyRow target source => copyRow target source
  | copyRowOf other target source => copyRowOf (f other) target source
  | resize rows => resize rows
  | keepRows keep => keepRows keep
  | add other coefficient => add (f other) coefficient

theorem map_map {M N K : Type} (op : Operation M) (f : M → N) (g : N → K) :
    (op.map f).map g = op.map fun x => g (f x) := by
  cases op <;> rfl

theorem of_mem_others {M N : Type} {op : Operation M} {f : M → N} {other : N}
    (member : other ∈ (op.map f).others) : ∃ x, f x = other := by
  cases op with
  | addRowOf x | copyRowOf x | add x => exact ⟨x, (List.mem_singleton.mp member).symm⟩
  | _ => cases member

/-- The outcome of an operation that cannot be refused. -/
def succeed (changed : Checked (RowMatrix e)) :
    Checked (Outcome (RowMatrix e) StorageError Unit) :=
  changed.map fun m => ⟨m, .ok ()⟩

def run [Storage.Memory] : Operation (RowMatrix e) → RowMatrix e →
    Checked (Outcome (RowMatrix e) StorageError Unit)
  | put i j value, m => succeed (m.putEntry i j value)
  | set i j value, m => .ok (m.set i j value)
  | addTo i j value, m => succeed (m.addEntry i j value)
  | clear, m => succeed (.ok m.clear)
  | toIdentity, m => succeed m.toIdentity
  | addRow target source coefficient start, m =>
    succeed (m.addRow target source coefficient start)
  | addRowOf other target source coefficient start, m =>
    succeed (m.addRowOf other target source coefficient start)
  | copyRow target source, m => succeed (m.copyRow target source)
  | copyRowOf other target source, m => succeed (m.copyRowOf other target source)
  | resize rows, m => .ok (m.resize rows)
  | keepRows keep, m => m.keepRows keep
  | add other coefficient, m => m.add other coefficient

end Operation

namespace RowTable

def row (t : RowTable) (i : Nat) : List Nat := t.rows.getD i []

def replaceRow (t : RowTable) (i : Nat) (row : List Nat) : RowTable :=
  { t with rows := t.rows.set i row }

def addRow (t : RowTable) (target : Nat) (source : List Nat) (coefficient : Nat) : RowTable :=
  t.replaceRow target (ResidueVector.addEntries t.prime (t.row target) source coefficient)

def unitRow (n i : Nat) : List Nat := (List.range n).map fun j => if j = i then 1 else 0

end RowTable

namespace Operation

variable [Storage.Memory]

/-- The plain meaning of an operation. The start of a sum plays no part in it. A matrix that would
not fit in memory does not grow. -/
def apply (e : Encoding) : Operation RowTable → RowTable → RowTable
  | put i j value, t | set i j value, t =>
    t.replaceRow i ((t.row i).set j (t.prime.reduce value))
  | addTo i j value, t =>
    t.replaceRow i ((t.row i).set j (t.prime.sum ((t.row i).getD j 0) (t.prime.reduce value)))
  | clear, t => { t with rows := t.rows.map fun row => row.map fun _ => 0 }
  | toIdentity, t =>
    { t with rows := (List.range t.columns).map (RowTable.unitRow t.columns) }
  | addRow target source coefficient _, t => t.addRow target (t.row source) coefficient
  | addRowOf other target source coefficient _, t => t.addRow target (other.row source) coefficient
  | copyRow target source, t => t.replaceRow target (t.row source)
  | copyRowOf other target source, t => t.replaceRow target (other.row source)
  | resize rows, t =>
    if Fits e rows t.columns then
      { t with
        rows := t.rows.take rows ++
          List.replicate (rows - t.rows.length) (List.replicate t.columns 0) }
    else t
  | keepRows keep, t => { t with rows := keep.map t.row }
  | add other coefficient, t =>
    { t with
      rows := List.zipWith (fun row source =>
        ResidueVector.addEntries t.prime row source coefficient) t.rows other.rows }

/-- The rules of each operation, read off the tables: positions are in range, the rows of a sum are
distinct and the source is zero before the start column, and two matrices have the same prime and
width, or the same shape. -/
def Admissible : Operation RowTable → RowTable → Prop
  | put i j _, t | set i j _, t | addTo i j _, t => i < t.rows.length ∧ j < t.columns
  | clear, _ => True
  | toIdentity, t => t.rows.length = t.columns
  | addRow target source _ start, t =>
    target < t.rows.length ∧ source < t.rows.length ∧ target ≠ source ∧
      ∀ j, j < start → (t.row source).getD j 0 = 0
  | addRowOf other target source _ start, t =>
    other.prime = t.prime ∧ other.columns = t.columns ∧ target < t.rows.length ∧
      source < other.rows.length ∧ ∀ j, j < start → (other.row source).getD j 0 = 0
  | copyRow target source, t => target < t.rows.length ∧ source < t.rows.length
  | copyRowOf other target source, t =>
    other.prime = t.prime ∧ other.columns = t.columns ∧ target < t.rows.length ∧
      source < other.rows.length
  | resize rows, _ => rows ≤ Storage.maxSize
  | keepRows keep, t => keep.Pairwise (· < ·) ∧ ∀ k ∈ keep, k < t.rows.length
  | add other _, t =>
    other.prime = t.prime ∧ other.columns = t.columns ∧ other.rows.length = t.rows.length

instance (op : Operation RowTable) (t : RowTable) : Decidable (op.Admissible t) :=
  match op with
  | put .. | set .. | addTo .. => inferInstanceAs (Decidable (_ ∧ _))
  | clear => inferInstanceAs (Decidable True)
  | toIdentity => inferInstanceAs (Decidable (_ = _))
  | addRow .. | addRowOf .. | copyRow .. | copyRowOf .. => inferInstanceAs (Decidable (_ ∧ _))
  | resize _ => inferInstanceAs (Decidable (_ ≤ _))
  | keepRows _ | add .. => inferInstanceAs (Decidable (_ ∧ _))

end Operation

namespace RowMatrix

theorem length_rows_table (m : RowMatrix e) : m.table.rows.length = m.rows := by
  simp [table, toLists]

variable [Storage.Memory] {m other : RowMatrix e}

theorem Shaped.getElem?_rows_table (h : m.Shaped p r n) {i : Nat} (hi : i < r) :
    m.table.rows[i]? = some (residues (m.vec p n i)) := by
  rw [h.table_eq, List.getElem?_map, List.getElem?_range hi]
  rfl

theorem Shaped.row_table (h : m.Shaped p r n) {i : Nat} (hi : i < r) :
    m.table.row i = residues (m.vec p n i) := by
  rw [RowTable.row, List.getD_eq_getElem?_getD, h.getElem?_rows_table hi, Option.getD_some]

/-- A source row that is zero before the start column according to the table. -/
theorem Shaped.zero_before (h : m.Shaped p r n) {i start : Nat} (hi : i < r)
    (zero : ∀ j, j < start → (m.table.row i).getD j 0 = 0) (j : Fin n) (before : j.val < start) :
    m.vec p n i j = 0 := by
  have entry := zero j before
  rw [h.row_table hi, List.getD_eq_getElem?_getD, getElem?_residues _ j.isLt] at entry
  exact (ZMod.val_eq_zero _).mp entry

end RowMatrix

/-- A call keeps to the rules and leaves a matrix that shows the table `t`. -/
def Gives [Storage.Memory] (call : Checked (Outcome (RowMatrix e) StorageError Unit))
    (t : RowTable) : Prop :=
  ∃ outcome, call = .ok outcome ∧ outcome.state.WellFormed ∧ outcome.state.table = t

namespace Operation

open RowMatrix

variable [Storage.Memory] {m other : RowMatrix e}

/-- Changing one row of a matrix replaces one row of its table. -/
theorem gives_replaceRow (h : m.Shaped p r n) {m' : RowMatrix e} (h' : m'.Shaped p r n)
    {call : Checked (RowMatrix e)} (run : call = .ok m') {i : Nat} {v : Fin n → Residue p}
    (rows : m'.vec p n = Function.update (m.vec p n) i v) :
    Gives (succeed call) (m.table.replaceRow i (residues v)) := by
  refine ⟨⟨m', .ok ()⟩, by rw [run]; rfl, h'.wellFormed, ?_⟩
  rw [h'.table_eq, h.table_eq, rows, map_update residues]
  rfl

/-- A matrix whose rows are known shows the table with these rows. -/
theorem gives_rows (h : m.Shaped p r n) {m' : RowMatrix e} {r' : Nat} (h' : m'.Shaped p r' n)
    {call : Checked (Outcome (RowMatrix e) StorageError Unit)}
    {answer : Except StorageError Unit} (run : call = .ok ⟨m', answer⟩) {rows : List (List Nat)}
    (length : rows.length = r')
    (same : ∀ i, i < r' → rows[i]? = some (residues (m'.vec p n i))) :
    Gives call { m.table with rows } := by
  refine ⟨⟨m', answer⟩, run, h'.wellFormed, ?_⟩
  have list : (List.range r').map (fun i => residues (m'.vec p n i)) = rows := by
    apply List.ext_getElem?
    intro i
    by_cases inside : i < r'
    · rw [same i inside, List.getElem?_map, List.getElem?_range inside]
      rfl
    · rw [List.getElem?_eq_none (by simpa using inside),
        List.getElem?_eq_none (by omega)]
  rw [h'.table_eq, h.table_eq, list]

theorem written_row (h : m.Shaped p r n) {i : Nat} (hi : i < r) (j : Fin n) (x : Residue p) :
    residues (Function.update (m.vec p n i) j x) = (m.table.row i).set j x.val := by
  rw [residues_update, h.row_table hi]

theorem gives_write (h : m.Shaped p r n) {i : Nat} (hi : i < r) (j : Fin n) (value : Nat)
    {call : Checked (RowMatrix e)} (run : call = .ok (m.write i j value)) :
    Gives (succeed call) (m.table.replaceRow i ((m.table.row i).set j (p.reduce value))) := by
  have gives := gives_replaceRow h (h.write_ok hi j.isLt value).1 run (h.vec_write hi j value)
  rw [written_row h hi, ZMod.val_natCast] at gives
  exact gives

theorem summed_row (h : m.Shaped p r n) {r' : Nat} (h' : other.Shaped p r' n) {t s : Nat}
    (ht : t < r) (hs : s < r') (c : Nat) :
    residues (m.vec p n t + (c : Residue p) • other.vec p n s) =
      ResidueVector.addEntries p (m.table.row t) (other.table.row s) c := by
  rw [h.row_table ht, h'.row_table hs, addEntries_residues]

omit [Storage.Memory] in
theorem residues_unit (p : SmallPrime) (n i : Nat) :
    residues (fun l : Fin n => if l.val = i then (1 : Residue p) else 0) =
      RowTable.unitRow n i := by
  apply List.ext_getElem
  · simp [RowTable.unitRow]
  · intro j _ _
    have one : (1 : Residue p).val = 1 := by
      rw [← Nat.cast_one, ZMod.val_cast_of_lt p.two_le]
    simp only [residues, RowTable.unitRow, List.getElem_ofFn, List.getElem_map, List.getElem_range]
    split
    · exact one
    · exact ZMod.val_zero

theorem gives_resize (h : m.Shaped p r n) {rows : Nat} (size : rows ≤ Storage.maxSize) :
    Gives (.ok (m.resize rows)) ((resize rows).apply e m.table) := by
  have stored : m.table.rows.length = r := m.length_rows_table.trans h.rows
  have columns : m.table.columns = n := h.columns
  by_cases fits : Fits e rows n
  · have allowed : Fits e rows m.table.columns := columns ▸ fits
    obtain ⟨m', run, shaped, values⟩ := h.resize_vec size fits
    simp only [apply, stored, allowed, if_true]
    apply gives_rows h shaped (congrArg Except.ok run)
    · simp only [List.length_append, List.length_take, List.length_replicate]
      omega
    · intro i hi
      rw [values i hi, List.getElem?_append, List.length_take, List.getElem?_take, stored]
      by_cases kept : i < r
      · have first : i < min rows r := by omega
        rw [if_pos first, if_pos hi, if_pos kept]
        exact h.getElem?_rows_table kept
      · have later : ¬ i < min rows r := by omega
        have added : i - min rows r < rows - r := by omega
        rw [if_neg later, if_neg kept, residues_zero, columns, List.getElem?_replicate,
          if_pos added]
  · have refused : ¬ Fits e rows m.table.columns := columns ▸ fits
    obtain ⟨_, _, run⟩ := h.resize_refused fits
    simp only [apply, refused, if_false]
    exact ⟨_, congrArg Except.ok run, h.wellFormed, rfl⟩

theorem gives_keepRows (h : m.Shaped p r n) {keep : List Nat} (increasing : keep.Pairwise (· < ·))
    (inside : ∀ k ∈ keep, k < r) :
    Gives (m.keepRows keep) ((keepRows keep).apply e m.table) := by
  obtain ⟨m', run, shaped, rows⟩ := h.keepRows_ok keep increasing inside
  apply gives_rows h shaped run
  · simp
  · intro t ht
    have place := List.getElem?_eq_getElem ht
    rw [List.getElem?_map, place, Option.map_some, rows t _ place,
      h.row_table (inside _ (List.getElem_mem ht))]

/-- One operation that the tables admit does to a stored matrix what it does to the table. -/
theorem run_gives (wf : m.WellFormed) (op : Operation (RowMatrix e))
    (others : ∀ other ∈ op.others, other.WellFormed)
    (admissible : (op.map table).Admissible m.table) :
    Gives (op.run m) ((op.map table).apply e m.table) := by
  have h := wf.shaped
  have count := m.length_rows_table
  cases op with
  | put i j value =>
    obtain ⟨hi, hj⟩ := admissible
    rw [count] at hi
    exact gives_write h hi ⟨j, hj⟩ value (h.putEntry_eq hi ⟨j, hj⟩ value)
  | set i j value =>
    obtain ⟨hi, hj⟩ := admissible
    rw [count] at hi
    simp only [run, h.set_eq hi ⟨j, hj⟩]
    exact gives_write h hi ⟨j, hj⟩ value rfl
  | addTo i j value =>
    obtain ⟨hi, inside⟩ := admissible
    have hj : j < m.columns := inside
    rw [count] at hi
    obtain ⟨m', run, shaped, rows⟩ := h.addEntry_ok hi ⟨j, hj⟩ value
    have gives := gives_replaceRow h shaped run rows
    have sum : (m.vec m.prime m.columns i ⟨j, hj⟩ + (value : Residue m.prime)).val =
        m.prime.sum ((m.table.row i).getD j 0) (m.prime.reduce value) := by
      rw [h.row_table hi, List.getD_eq_getElem?_getD, getElem?_residues _ hj, ZMod.val_add,
        ZMod.val_natCast]
      rfl
    rw [written_row h hi, sum] at gives
    exact gives
  | clear =>
    have shaped := blank_shaped h.supported h.rows_le h.columns_le h.fits
    rw [← h.clear_eq] at shaped
    apply gives_rows h shaped rfl
    · simpa using count
    · intro i hi
      simp only [List.getElem?_map, h.getElem?_rows_table hi, Option.map_some, List.map_const',
        length_residues, h.clear_eq, vec_blank, residues_zero]
  | toIdentity =>
    have square : m.Shaped m.prime m.columns m.columns :=
      ⟨wf, rfl, count.symm.trans admissible, rfl⟩
    obtain ⟨unit, run, shaped, rows⟩ := square.toIdentity_ok
    apply gives_rows h shaped (congrArg succeed run)
    · simp [table]
    · intro i hi
      simp only [List.getElem?_map, List.getElem?_range hi, Option.map_some, rows i hi,
        residues_unit, table]
  | addRow target source c start =>
    obtain ⟨ht, hs, apart, zero⟩ := admissible
    rw [count] at ht hs
    obtain ⟨m', run, shaped, rows⟩ :=
      h.addRow_ok ht hs apart c start (h.zero_before hs zero)
    have gives := gives_replaceRow h shaped run rows
    rw [summed_row h h ht hs] at gives
    exact gives
  | addRowOf other target source c start =>
    obtain ⟨primes, widths, ht, hs, zero⟩ := admissible
    rw [count] at ht
    have h' : other.Shaped m.prime other.rows m.columns :=
      ⟨others other (List.mem_singleton_self other), primes, rfl, widths⟩
    have hs : source < other.rows := Nat.lt_of_lt_of_eq hs other.length_rows_table
    obtain ⟨m', run, shaped, rows⟩ :=
      h.addRowOf_ok h' ht hs c start (h'.zero_before hs zero)
    have gives := gives_replaceRow h shaped run rows
    rw [summed_row h h' ht hs] at gives
    exact gives
  | copyRow target source =>
    obtain ⟨ht, hs⟩ := admissible
    rw [count] at ht hs
    obtain ⟨m', run, shaped, rows⟩ := h.copyRow_ok ht hs
    have gives := gives_replaceRow h shaped run rows
    rw [← h.row_table hs] at gives
    exact gives
  | copyRowOf other target source =>
    obtain ⟨primes, widths, ht, hs⟩ := admissible
    rw [count] at ht
    have h' : other.Shaped m.prime other.rows m.columns :=
      ⟨others other (List.mem_singleton_self other), primes, rfl, widths⟩
    have hs : source < other.rows := Nat.lt_of_lt_of_eq hs other.length_rows_table
    obtain ⟨m', run, shaped, rows⟩ := h.copyRowOf_ok h' ht hs
    have gives := gives_replaceRow h shaped run rows
    rw [← h'.row_table hs] at gives
    exact gives
  | resize rows => exact gives_resize h admissible
  | keepRows keep =>
    obtain ⟨increasing, inside⟩ := admissible
    rw [count] at inside
    exact gives_keepRows h increasing inside
  | add other c =>
    obtain ⟨primes, widths, heights⟩ := admissible
    rw [other.length_rows_table, count] at heights
    have h' : other.Shaped m.prime m.rows m.columns :=
      ⟨others other (List.mem_singleton_self other), primes, heights, widths⟩
    obtain ⟨m', run, shaped, rows⟩ := h.add_ok h' c
    apply gives_rows h shaped run
    · simp [count, other.length_rows_table, heights]
    · intro i hi
      simp only [List.getElem?_zipWith, h.getElem?_rows_table hi, h'.getElem?_rows_table hi,
        rows i hi, ← addEntries_residues]
      rfl

end Operation

/-- A call of an operation on one of several matrices, which are known by numbers. -/
structure Command where
  target : Nat
  operation : Operation Nat

namespace Command

section

variable [Storage.Memory]

def run (c : Command) (matrices : Nat → RowMatrix e) : Checked (Nat → RowMatrix e) := do
  let outcome ← (c.operation.map matrices).run (matrices c.target)
  return Function.update matrices c.target outcome.state

def apply (e : Encoding) (c : Command) (tables : Nat → RowTable) : Nat → RowTable :=
  Function.update tables c.target ((c.operation.map tables).apply e (tables c.target))

def runAll (commands : List Command) (matrices : Nat → RowMatrix e) :
    Checked (Nat → RowMatrix e) :=
  commands.foldlM (fun matrices c => c.run matrices) matrices

def applyAll (e : Encoding) (commands : List Command) (tables : Nat → RowTable) :
    Nat → RowTable :=
  commands.foldl (fun tables c => c.apply e tables) tables

/-- Every command keeps to the rules at the tables that the commands before it leave. -/
def Legal (e : Encoding) : List Command → (Nat → RowTable) → Prop
  | [], _ => True
  | c :: rest, tables =>
    (c.operation.map tables).Admissible (tables c.target) ∧ Legal e rest (c.apply e tables)

instance decidableLegal (e : Encoding) (commands : List Command) (tables : Nat → RowTable) :
    Decidable (Legal e commands tables) :=
  match commands with
  | [] => inferInstanceAs (Decidable True)
  | c :: rest =>
    have := decidableLegal e rest (c.apply e tables)
    inferInstanceAs (Decidable (_ ∧ _))

variable {matrices : Nat → RowMatrix e} {commands started : List Command}

/-- A legal command changes the stored matrix as it changes the table, and no other matrix. -/
theorem run_tables (wf : ∀ k, (matrices k).WellFormed) {c : Command}
    (admissible : (c.operation.map fun k => (matrices k).table).Admissible
      (matrices c.target).table) :
    ∃ after, c.run matrices = .ok after ∧ (∀ k, (after k).WellFormed) ∧
      (fun k => (after k).table) = c.apply e fun k => (matrices k).table := by
  have others : ∀ other ∈ (c.operation.map matrices).others, other.WellFormed := by
    intro other member
    obtain ⟨k, rfl⟩ := Operation.of_mem_others member
    exact wf k
  rw [← Operation.map_map c.operation matrices RowMatrix.table] at admissible
  obtain ⟨outcome, run, stored, table⟩ :=
    Operation.run_gives (wf c.target) (c.operation.map matrices) others admissible
  refine ⟨Function.update matrices c.target outcome.state, ?_, ?_, ?_⟩
  · simp only [Command.run, run]
    rfl
  · intro k
    by_cases target : k = c.target
    · subst target
      rwa [Function.update_self]
    · rw [Function.update_of_ne target]
      exact wf k
  · rw [Operation.map_map] at table
    funext k
    by_cases target : k = c.target
    · subst target
      rw [apply, Function.update_self, Function.update_self, table]
    · rw [apply, Function.update_of_ne target, Function.update_of_ne target]

theorem runAll_tables (wf : ∀ k, (matrices k).WellFormed)
    (legal : Legal e commands fun k => (matrices k).table) :
    ∃ after, runAll commands matrices = .ok after ∧ (∀ k, (after k).WellFormed) ∧
      (fun k => (after k).table) = applyAll e commands fun k => (matrices k).table := by
  induction commands generalizing matrices with
  | nil => exact ⟨matrices, rfl, wf, rfl⟩
  | cons c rest ih =>
    obtain ⟨admissible, legal⟩ := legal
    obtain ⟨next, step, wf, tables⟩ := run_tables wf admissible
    rw [← tables] at legal
    obtain ⟨after, run, wf, last⟩ := ih wf legal
    refine ⟨after, ?_, wf, ?_⟩
    · simp only [runAll, List.foldlM_cons, step]
      exact run
    · rw [last, tables]
      rfl

theorem Legal.of_prefix {tables : Nat → RowTable} (legal : Legal e commands tables)
    (earlier : started <+: commands) : Legal e started tables := by
  obtain ⟨rest, rfl⟩ := earlier
  induction started generalizing tables with
  | nil => trivial
  | cons c started ih => exact ⟨legal.1, ih legal.2⟩

/-- After each step of a legal history, in every encoding, every way of reading the matrices shows
what the plain arithmetic of rows has computed. -/
theorem history_shows (wf : ∀ k, (matrices k).WellFormed)
    (legal : Legal e commands fun k => (matrices k).table) (earlier : started <+: commands) :
    ∃ after, runAll started matrices = .ok after ∧
      ∀ k, (after k).Shows (applyAll e started (fun k => (matrices k).table) k) := by
  obtain ⟨after, run, wf, tables⟩ := runAll_tables wf (legal.of_prefix earlier)
  refine ⟨after, run, ?_⟩
  intro k
  rw [← congrFun tables k]
  exact (wf k).shows

end

/-- A source that is zero in its first batch, a coefficient that is not reduced, and a matrix that
shrinks and grows again. -/
theorem history_shows_of_sample :
    let p : SmallPrime := ⟨3, by decide, by decide⟩
    let matrices (k : Nat) := RowMatrix.tabulate .batched p 2 40 fun i j =>
      if j < 33 then 0 else i + j + k
    let commands : List Command :=
      [⟨0, .addRowOf 1 1 0 5 33⟩, ⟨0, .addRow 0 1 7 0⟩, ⟨0, .addTo 1 39 100⟩, ⟨1, .resize 1⟩,
        ⟨1, .resize 2⟩, ⟨1, .add 0 2⟩]
    Legal .batched commands (fun k => (matrices k).table) ∧ ∃ after, runAll commands matrices = .ok after ∧
      ∀ k, (after k).Shows (applyAll .batched commands (fun k => (matrices k).table) k) := by
  intro p matrices commands
  have table (k : Nat) : (matrices k).table = ⟨p, 40, (List.range 2).map fun i =>
      (List.range 40).map fun j => (if j < 33 then 0 else i + j + k) % 3⟩ :=
    RowMatrix.table_tabulate (by decide) (by decide) (by decide) (by decide) _
  have legal : Legal .batched commands fun k => (matrices k).table := by
    rw [funext table]
    decide
  have wf (k : Nat) : (matrices k).WellFormed :=
    (RowMatrix.tabulate_shaped (by decide) (by decide) (by decide) (by decide) _).wellFormed
  exact ⟨legal, history_shows wf legal (List.prefix_refl commands)⟩

end Command

end RowReduction
