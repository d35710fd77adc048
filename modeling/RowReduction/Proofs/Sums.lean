import Mathlib
import RowReduction.Proofs.Conversion
import RowReduction.Proofs.Updates

/-!
Sums of matrices in any two encodings. Matrices of one encoding are added row by row. Otherwise the
left matrix is stored in the generic encoding and the entries are added one at a time, unless an
even multiple modulo 2 leaves nothing to add. All of these ways give the same sums, and unequal
shapes are found before anything is stored anew.
-/
namespace RowReduction

variable {e f g : Encoding} {p : SmallPrime} {r n : Nat}

namespace RowMatrix

/-- The entry at position `k` in row-major order. -/
def entryAt (m : RowMatrix e) (p : SmallPrime) (n k : Nat) : Residue p :=
  (m.read (k / n) (k % n) : Residue p)

theorem entryAt_position (m : RowMatrix e) (i : Nat) (j : Fin n) :
    m.entryAt p n (i * n + j) = m.vec p n i j := by
  simp only [entryAt, vec, position_split i j.isLt]

variable [Storage.Memory] {m : RowMatrix e} {other : RowMatrix f}

/-- One step of an addition by entries. Where the other entry is zero nothing is written. -/
theorem Shaped.addPosition_ok (h : m.Shaped p r n) {k : Nat} (inside : k < r * n) (c x : Nat) :
    ∃ m', (if x = 0 then (return m : Checked (RowMatrix e))
        else m.addEntry (k / n) (k % n) (p.product c x)) = .ok m' ∧ m'.Shaped p r n ∧
      m'.entryAt p n =
        Function.update (m.entryAt p n) k (m.entryAt p n k + (c : Residue p) * (x : Residue p)) := by
  by_cases zero : x = 0
  · refine ⟨m, by rw [if_pos zero]; rfl, h, ?_⟩
    simp [zero]
  · obtain ⟨row, column⟩ := position_lt inside
    obtain ⟨m', run, shaped, vectors⟩ := h.addEntry_ok row ⟨k % n, column⟩ (p.product c x)
    refine ⟨m', by rw [if_neg zero]; exact run, shaped, ?_⟩
    have product : (p.product c x : Residue p) = (c : Residue p) * (x : Residue p) := by
      rw [SmallPrime.product, ZMod.natCast_mod, Nat.cast_mul]
    have entry (s : RowMatrix e) (q : Nat) : s.entryAt p n q =
        s.vec p n (q / n) ⟨q % n, Nat.mod_lt q (Nat.zero_lt_of_lt column)⟩ := rfl
    funext q
    -- Two positions are the same if their rows and their columns are.
    by_cases here : q = k
    · subst here
      simp [entry, vectors, product]
    · rw [Function.update_of_ne here, entry, entry, vectors]
      by_cases same : q / n = k / n
      · have apart : q % n ≠ k % n := by
          intro remainder
          apply here
          rw [← Nat.div_add_mod q n, ← Nat.div_add_mod k n, same, remainder]
        rw [same, Function.update_self, Function.update_of_ne (by simpa using apart)]
      · rw [Function.update_of_ne same]

/-- Adding entry by entry gives the rows that adding by rows gives. -/
theorem Shaped.addEntries_ok (h : m.Shaped p r n) (h' : other.Shaped p r n) (c : Nat) :
    ∃ sum, EncodedMatrix.addEntries m other c = .ok sum ∧ sum.Shaped p r n ∧ ∀ i, i < r →
      sum.vec p n i = m.vec p n i + (c : Residue p) • other.vec p n i := by
  obtain ⟨sum, run, shaped, entries⟩ := foldRows_ok (P := fun s : RowMatrix e => s.Shaped p r n)
    (v := fun s => s.entryAt p n) (g := fun k y => y + (c : Residue p) * other.entryAt p n k)
    (fun s k inside shaped => shaped.addPosition_ok inside c (other.read (k / n) (k % n))) h
  refine ⟨sum, ?_, shaped, ?_⟩
  · simp only [EncodedMatrix.addEntries, h.prime, h'.rows, h'.columns]
    exact run
  · intro i hi
    funext j
    have entry := entries (i * n + j)
    rw [if_pos (position_inside hi j.isLt)] at entry
    simpa [entryAt_position] using entry

theorem Shaped.read_sum {s : RowMatrix g} (h : s.Shaped p r n) {c i j : Nat} (hi : i < r)
    (hj : j < n)
    (sum : s.vec p n i = m.vec p n i + (c : Residue p) • other.vec p n i) :
    s.read i j = (m.read i j + c * other.read i j) % p.val := by
  have entry := congrFun sum ⟨j, hj⟩
  simp only [vec, Pi.add_apply, Pi.smul_apply, smul_eq_mul] at entry
  rw [← Nat.cast_mul, ← Nat.cast_add, ZMod.natCast_eq_natCast_iff'] at entry
  rwa [Nat.mod_eq_of_lt (h.read_lt hi hj)] at entry

end RowMatrix

namespace EncodedMatrix

section

variable [Storage.Memory] {m other : EncodedMatrix} {c : Nat}

/-- An addition that leaves the encoding as it is: that of the other matrix is the same, or nothing
is added. -/
def KeepsEncoding (m other : EncodedMatrix) (c : Nat) : Prop :=
  m.encoding = other.encoding ∨ m.prime.val = 2 ∧ c % 2 = 0

instance (m other : EncodedMatrix) (c : Nat) : Decidable (m.KeepsEncoding other c) :=
  inferInstanceAs (Decidable (_ ∨ _))

/-- What `m` is after `c` times `other` was added to it. -/
structure IsSum (m other : EncodedMatrix) (c : Nat) (sum : EncodedMatrix) : Prop where
  encoding : sum.encoding = if m.KeepsEncoding other c then m.encoding else .generic
  wellFormed : sum.matrix.WellFormed
  prime : sum.prime = m.prime
  rows : sum.rows = m.rows
  columns : sum.columns = m.columns
  entries : ∀ i j, i < m.rows → j < m.columns →
    sum.matrix.read i j = (m.matrix.read i j + c * other.matrix.read i j) % m.prime.val

/-- The failures of an addition: the widths are compared first and then the heights. -/
def Mismatch (m other : EncodedMatrix) (failure : StorageError) : Prop :=
  m.columns ≠ other.columns ∧ failure = .widthMismatch m.columns other.columns ∨
    m.columns = other.columns ∧ m.rows ≠ other.rows ∧
      failure = .widthMismatch m.rows other.rows

omit [Storage.Memory] in
theorem mismatch_or_alike (m other : EncodedMatrix) : (∃ failure, m.Mismatch other failure) ∨
    m.columns = other.columns ∧ m.rows = other.rows := by
  by_cases widths : m.columns = other.columns
  · by_cases heights : m.rows = other.rows
    · exact .inr ⟨widths, heights⟩
    · exact .inl ⟨_, .inr ⟨widths, heights, rfl⟩⟩
  · exact .inl ⟨_, .inl ⟨widths, rfl⟩⟩

theorem add_of_mismatch (primes : m.prime = other.prime) {failure : StorageError}
    (mismatch : m.Mismatch other failure) : m.add other c = .ok ⟨m, .error failure⟩ := by
  have checked : require (m.prime = other.prime) .addOverDifferentPrimes = .ok () :=
    require_eq_ok.mpr (by simp [primes])
  rcases mismatch with ⟨apart, rfl⟩ | ⟨widths, apart, rfl⟩
  · simp only [add, checked, checkWidths, if_neg apart]
    rfl
  · simp only [add, checked, checkWidths, if_pos widths, if_neg apart]
    rfl

/-- An addition of equal shapes passes all checks. -/
theorem add_of_shaped (h : other.matrix.Shaped m.prime m.rows m.columns) : m.add other c =
    if same : m.encoding = other.encoding then do
      return m.update (← m.matrix.add (same ▸ other.matrix) c)
    else if m.prime.val = 2 ∧ c % 2 = 0 then return ⟨m, .ok ()⟩
    else do
      match ← (m.inEncoding .generic).run with
      | .error failure => return ⟨m, .error failure⟩
      | .ok converted =>
        return ⟨⟨.generic, ← addEntries converted other.matrix (m.prime.reduce c)⟩, .ok ()⟩ := by
  have primes : m.prime = other.prime := h.prime.symm
  have checked : require (m.prime = other.prime) .addOverDifferentPrimes = .ok () :=
    require_eq_ok.mpr (decide_eq_true primes)
  have widths : checkWidths m.columns other.columns = .ok () :=
    checkWidths_eq_ok.mpr h.columns.symm
  have heights : checkWidths m.rows other.rows = .ok () := checkWidths_eq_ok.mpr h.rows.symm
  simp only [add, checked, widths, heights]
  rfl

/-- Of equal shapes the sum is formed, row by row or entry by entry. -/
theorem add_ok (wf : m.matrix.WellFormed) (h : other.matrix.Shaped m.prime m.rows m.columns)
    (allocated : ¬ m.KeepsEncoding other c → Fits .generic m.rows m.columns) :
    ∃ sum, m.add other c = .ok ⟨sum, .ok ()⟩ ∧
      sum.encoding = (if m.KeepsEncoding other c then m.encoding else .generic) ∧
      sum.matrix.Shaped m.prime m.rows m.columns ∧ ∀ i, i < m.rows →
        sum.matrix.vec m.prime m.columns i = m.matrix.vec m.prime m.columns i +
          (c : Residue m.prime) • other.matrix.vec m.prime m.columns i := by
  have own : m.matrix.Shaped m.prime m.rows m.columns := wf.shaped
  rw [add_of_shaped h]
  by_cases same : m.encoding = other.encoding
  · obtain ⟨e, m⟩ := m
    obtain ⟨f, other⟩ := other
    subst same
    obtain ⟨sum, run, shaped, rows⟩ := wf.shaped.add_ok h c
    refine ⟨⟨e, sum⟩, ?_, (if_pos (.inl rfl)).symm, shaped, rows⟩
    rw [dif_pos rfl]
    exact bind_eq_ok.mpr ⟨_, run, rfl⟩
  by_cases even : m.prime.val = 2 ∧ c % 2 = 0
  · refine ⟨m, ?_, (if_pos (.inr even)).symm, own, ?_⟩
    · rw [dif_neg same, if_pos even]
      rfl
    · intro i _
      have divides : m.prime.val ∣ c := even.1 ▸ Nat.dvd_of_mod_eq_zero even.2
      have vanishes : (c : Residue m.prime) = 0 := (ZMod.natCast_eq_zero_iff c _).mpr divides
      simp [vanishes]
  · have anew : ¬ m.KeepsEncoding other c := not_or.mpr ⟨same, even⟩
    obtain ⟨converted, stored, shaped, copy⟩ :=
      inEncoding_shaped (f := .generic) (p := m.prime) wf rfl rfl rfl (allocated anew)
    obtain ⟨sum, run, shaped, rows⟩ := shaped.addEntries_ok h (m.prime.reduce c)
    refine ⟨⟨.generic, sum⟩, ?_, (if_neg anew).symm, shaped, ?_⟩
    · rw [dif_neg same, if_neg even, stored]
      exact bind_eq_ok.mpr ⟨.ok converted, rfl, bind_eq_ok.mpr ⟨sum, run, rfl⟩⟩
    · intro i hi
      rw [rows i hi, RowMatrix.Shaped.cast_reduce, copy.vec_eq own]

/-- Stored in any encoding that holds both, the matrices have the same sum. -/
def SumsAgree (m other : EncodedMatrix) (c : Nat) (sum : EncodedMatrix) : Prop :=
  ∀ (f : Encoding) (x y : RowMatrix f), m.inEncoding f = pure x → other.inEncoding f = pure y →
    ∃ s, x.add y c = .ok ⟨s, .ok ()⟩ ∧ sum.matrix.Same s

theorem sumsAgree_of_rows (wf : m.matrix.WellFormed)
    (h : other.matrix.Shaped m.prime m.rows m.columns) {sum : EncodedMatrix}
    (shaped : sum.matrix.Shaped m.prime m.rows m.columns)
    (rows : ∀ i, i < m.rows → sum.matrix.vec m.prime m.columns i =
      m.matrix.vec m.prime m.columns i +
        (c : Residue m.prime) • other.matrix.vec m.prime m.columns i) :
    m.SumsAgree other c sum := by
  intro f x y stored stored'
  have own : m.matrix.Shaped m.prime m.rows m.columns := wf.shaped
  have left := same_of_inEncoding wf stored
  have right := same_of_inEncoding h.wellFormed stored'
  obtain ⟨s, run, final, values⟩ := (left.shaped own).add_ok (right.shaped h) c
  refine ⟨s, run, shaped.same final ?_⟩
  intro i hi
  rw [values i hi, rows i hi, left.vec_eq own, right.vec_eq h]

/-- Adding a multiple of a matrix over the same prime fails exactly if the shapes differ, and leaves
the matrix as it was. Otherwise every entry is the sum modulo the prime, and only additions across
encodings that may change something leave the generic encoding. -/
theorem add_exact (wf : m.matrix.WellFormed) (wf' : other.matrix.WellFormed)
    (primes : m.prime = other.prime)
    (allocated : m.columns = other.columns → m.rows = other.rows →
      ¬ m.KeepsEncoding other c → Fits .generic m.rows m.columns) :
    (∀ left failure, m.add other c = .ok ⟨left, .error failure⟩ ↔
      left = m ∧ m.Mismatch other failure) ∧
    (m.columns = other.columns → m.rows = other.rows → ∃ sum, m.add other c = .ok ⟨sum, .ok ()⟩ ∧
      m.IsSum other c sum ∧ m.SumsAgree other c sum) := by
  have complete (widths : m.columns = other.columns) (heights : m.rows = other.rows) :
      ∃ sum, m.add other c = .ok ⟨sum, .ok ()⟩ ∧ m.IsSum other c sum ∧
        m.SumsAgree other c sum := by
    have h : other.matrix.Shaped m.prime m.rows m.columns :=
      ⟨wf', primes.symm, heights.symm, widths.symm⟩
    obtain ⟨sum, call, encoding, shaped, rows⟩ := add_ok wf h (allocated widths heights)
    refine ⟨sum, call, ?_, sumsAgree_of_rows wf h shaped rows⟩
    exact {
      encoding := encoding
      wellFormed := shaped.wellFormed
      prime := shaped.prime
      rows := shaped.rows
      columns := shaped.columns
      entries := fun i j hi hj => shaped.read_sum hi hj (rows i hi) }
  refine ⟨?_, complete⟩
  intro left failure
  constructor
  · intro failed
    rcases m.mismatch_or_alike other with ⟨found, mismatch⟩ | ⟨widths, heights⟩
    · rw [add_of_mismatch primes mismatch] at failed
      cases failed
      exact ⟨rfl, mismatch⟩
    · obtain ⟨sum, call, -⟩ := complete widths heights
      rw [call] at failed
      cases failed
  · rintro ⟨rfl, mismatch⟩
    exact add_of_mismatch primes mismatch

end

/-- Two encodings modulo 2 with an odd multiple. -/
theorem add_exact_of_sample :
    let m : EncodedMatrix := ⟨.packed, .tabulate .packed .two 2 3 fun i j => i + j⟩
    let other : EncodedMatrix := ⟨.batched, .tabulate .batched .two 2 3 fun i j => i * j⟩
    m.matrix.WellFormed ∧ other.matrix.WellFormed ∧ m.prime = other.prime ∧
      Fits .generic m.rows m.columns ∧
      (∀ left failure, m.add other 7 = .ok ⟨left, .error failure⟩ ↔
        left = m ∧ m.Mismatch other failure) ∧
      (m.columns = other.columns → m.rows = other.rows →
        ∃ sum, m.add other 7 = .ok ⟨sum, .ok ()⟩ ∧ m.IsSum other 7 sum ∧
          m.SumsAgree other 7 sum) := by
  intro m other
  have h : m.matrix.Shaped .two 2 3 :=
    RowMatrix.tabulate_shaped (by decide) (by decide) (by decide) (by decide) _
  have h' : other.matrix.Shaped .two 2 3 :=
    RowMatrix.tabulate_shaped (by decide) (by decide) (by decide) (by decide) _
  have primes : m.prime = other.prime := h.prime.trans h'.prime.symm
  have fits : Fits .generic m.rows m.columns := by
    have small : Fits .generic 2 3 := by decide
    rwa [← h.rows, ← h.columns] at small
  exact ⟨h.wellFormed, h'.wellFormed, primes, fits,
    add_exact h.wellFormed h'.wellFormed primes fun _ _ _ => fits⟩

end EncodedMatrix

end RowReduction
