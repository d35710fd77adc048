import Mathlib
import RowReduction.Proofs.Buffers
import RowReduction.Proofs.Conversion
import RowReduction.Proofs.ObtainedBases

/-!
Reductions break no rule. The only values that a reduction asks the inverse or the negative of are
residues, with an inverse of those that are not zero, every position that it looks at lies in its
matrix, and no row is added to itself: each of these is a rule that stops a call which breaks it.
Words of 32 bits wrap around without a word, so the arithmetic of batched rows is shown to be exact
at every step.
-/
namespace RowReduction

namespace Row.Batches

/-- One lane of a sum of batched rows, before it is reduced. -/
def lane (c : Nat) (t s : UInt8) : UInt32 := t.toUInt32 + UInt32.ofNat c * s.toUInt32

/-- The steps of reducing `t + c * s` modulo `p`. Nothing is too large for a word, no difference is
negative, and subtracting `p` once more is enough. -/
structure Exact (p : SmallPrime) (c : Nat) (t s : UInt8) : Prop where
  sum : (lane c t s).toNat = t.toNat + c * s.toNat
  small : t.toNat + c * s.toNat < 65536
  product : (lane c t s).toNat * (reciprocal (UInt32.ofNat p.val)).toNat < 2 ^ 32
  below : (quotientEstimate (UInt32.ofNat p.val) (lane c t s)).toNat * p.val ≤ (lane c t s).toNat
  close : (lane c t s).toNat <
    (quotientEstimate (UInt32.ofNat p.val) (lane c t s)).toNat * p.val + 2 * p.val

/-- A reduced coefficient is below 251, so two bytes may even be no residues. -/
theorem exact_of_reduced (p : SmallPrime) {c : Nat} (reduced : c < p.val) (t s : UInt8) :
    Exact p c t s := by
  have bound := p.le_251
  have two := p.two_le
  have left := t.toNat_lt
  have right := s.toNat_lt
  have product : c * s.toNat ≤ 250 * 255 := Nat.mul_le_mul (by omega) (by omega)
  have factor : (UInt32.ofNat c).toNat = c :=
    UInt32.toNat_ofNat_of_lt' (by simp only [UInt32.size]; omega)
  have modulus : (UInt32.ofNat p.val).toNat = p.val :=
    UInt32.toNat_ofNat_of_lt' (by simp only [UInt32.size]; omega)
  have sum : (lane c t s).toNat = t.toNat + c * s.toNat := by
    rw [lane, UInt32.toNat_add, UInt32.toNat_mul, factor, UInt8.toNat_toUInt32,
      UInt8.toNat_toUInt32, Nat.mod_eq_of_lt (show c * s.toNat < 2 ^ 32 by omega),
      Nat.mod_eq_of_lt (by omega)]
  have small : (lane c t s).toNat < 65536 := by omega
  have positive : 2 ≤ (UInt32.ofNat p.val).toNat := by omega
  obtain ⟨below, close⟩ := estimate_bounds (p := p.val) (by omega) small
  have estimate := toNat_quotientEstimate positive small
  rw [modulus] at estimate
  rw [← estimate] at below close
  exact ⟨sum, by omega, product_lt positive small, below, close⟩

end Row.Batches

namespace Elimination

variable {e : Encoding} {τ : Type} {follow : Follow e τ}

theorem visit_kept {s s' : Elimination e τ} {i : Nat} (call : s.visit follow i = .ok s') :
    s'.kept.next ≤ s.kept.next + 1 := by
  obtain ⟨-, rfl⟩ | ⟨_, _, _, _, _, _, _, -, -, -, -, kept, rfl⟩ := visit_cases call
  · exact Nat.le_succ _
  · obtain ⟨rfl, -⟩ := KeptRows.keep_cases kept
    exact Nat.le_refl _

/-- Of the rows that were visited at most all are kept, so a kept row never overwrites one that is
still to be read. -/
theorem visitFrom_kept {total remaining i : Nat} {s : Elimination e τ}
    {outcome : Outcome (Elimination e τ) ReductionError Unit}
    (call : s.visitFrom follow total remaining i = .ok outcome) (behind : s.kept.next ≤ i) :
    outcome.state.kept.next ≤ i + remaining := by
  obtain ⟨reached, bound, kept⟩ := visitFrom_keeps
    (Q := fun i (s : Elimination e τ) => s.kept.next ≤ i) (fun _ behind => behind)
    (fun behind visited => Nat.le_trans (visit_kept visited) (Nat.succ_le_succ behind)) behind call
  exact Nat.le_trans kept bound

end Elimination

theorem Ends.returns {σ α : Type} {call : Checked (Outcome σ ReductionError α)}
    {tooLarge stopped : Prop} {good : σ → α → Prop} (ends : Ends call tooLarge stopped good) :
    ∃ outcome, call = .ok outcome := by
  obtain ⟨outcome, run, -⟩ := ends
  exact ⟨outcome, run⟩

namespace EncodedMatrix

variable [Storage.Memory] {m l : EncodedMatrix} (pacer : Pacer)

theorem split_returns (wf : m.matrix.WellFormed) (wanted : Wanted) :
    ∃ outcome, m.split wanted pacer = .ok outcome := by
  obtain ⟨outcome, call⟩ := (RowMatrix.split_ends wf wanted pacer).returns
  exact ⟨_, split_of_row call⟩

theorem preimages_returns (wf : m.matrix.WellFormed) (wf' : l.matrix.WellFormed)
    (primes : l.prime = m.prime) : ∃ outcome, m.preimages l pacer = .ok outcome := by
  by_cases widths : m.columns = l.columns
  · by_cases fits : Fits m.encoding l.rows l.columns
    · obtain ⟨converted, stored, rows, -⟩ := inEncoding_shaped wf' wf.supported primes widths fits
      obtain ⟨outcome, call⟩ := (RowMatrix.preimages_ends wf rows pacer).returns
      exact ⟨_, preimages_of_converted widths stored call⟩
    · obtain ⟨cells, bytes, refused⟩ := inEncoding_of_not_fits wf' (primes ▸ wf.supported) fits
      exact ⟨_, preimages_of_unconverted widths refused⟩
  · exact ⟨_, preimages_of_widths_ne widths⟩

/-- An image that fits in the encoding of the matrix is found to be of another width. -/
theorem quotientBasis_of_widths_ne (wf : m.matrix.WellFormed) (wf' : l.matrix.WellFormed)
    (primes : l.prime = m.prime) (apart : m.columns ≠ l.columns)
    (fits : Fits m.encoding l.rows l.columns) :
    m.quotientBasis l pacer =
      .ok ⟨(m, pacer), .error (.storage (.widthMismatch m.columns l.columns))⟩ := by
  obtain ⟨converted, stored, same⟩ := inEncoding_of_fits wf' (primes ▸ wf.supported) fits
  have columns : converted.columns = l.columns := same.columns
  have call := RowMatrix.quotientBasis_of_widths_ne (m := m.matrix) (same.prime.trans primes)
    (columns ▸ apart) pacer
  rw [columns] at call
  exact quotientBasis_of_converted stored call

theorem quotientBasis_returns (wf : m.matrix.WellFormed) (wf' : l.matrix.WellFormed)
    (primes : l.prime = m.prime) : ∃ outcome, m.quotientBasis l pacer = .ok outcome := by
  by_cases fits : Fits m.encoding l.rows l.columns
  · by_cases widths : m.columns = l.columns
    · obtain ⟨converted, stored, image, -⟩ := inEncoding_shaped wf' wf.supported primes widths fits
      obtain ⟨outcome, call⟩ := (RowMatrix.quotientBasis_ends wf image pacer).returns
      exact ⟨_, quotientBasis_of_converted stored call⟩
    · exact ⟨_, quotientBasis_of_widths_ne pacer wf wf' primes widths fits⟩
  · obtain ⟨cells, bytes, refused⟩ := inEncoding_of_not_fits wf' (primes ▸ wf.supported) fits
    exact ⟨_, quotientBasis_of_unconverted refused⟩

end EncodedMatrix

theorem EncodedBasis.preimages_returns [Storage.Memory] {b : EncodedBasis} {l : EncodedMatrix}
    (valid : b.Valid) (wf : l.matrix.WellFormed) (primes : l.prime = b.prime) (pacer : Pacer) :
    ∃ outcome, b.preimages l pacer = .ok outcome := by
  by_cases widths : b.columns = l.columns
  · have hl : l.matrix.Shaped b.prime l.rows b.columns := ⟨wf, primes, rfl, widths.symm⟩
    exact (preimages_ends valid hl pacer).returns
  · exact ⟨_, preimages_of_widths_ne widths⟩

/-- A call that breaks no rule has an outcome, and the buffers of all that it leaves and answers
hold their rows. -/
def Safe [Storage.Memory] {σ α : Type} (call : Checked (Outcome σ ReductionError α))
    (left : σ → List EncodedMatrix) (answered : α → List EncodedMatrix) : Prop :=
  ∃ outcome, call = .ok outcome ∧ ∀ x ∈ outcome.matrices left answered, x.matrix.WellFormed

/-- Reductions of matrices over one prime break no rule, whatever is wanted of them, wherever they
are interrupted and whichever allocation fails. Matrices of unequal widths are left as they are,
with an error, although an image is stored anew before it is compared. Elimination never moves a row
behind one that it has still to read, no call looks behind the end of a buffer, and the arithmetic
of batched rows is exact. -/
theorem reductions_safe [Storage.Memory] {m l : EncodedMatrix} {b : EncodedBasis} (hm : Reachable m)
    (hl : Reachable l) (hb : Obtained b) (primes : l.prime = m.prime)
    (basis_prime : l.prime = b.prime) (pacer : Pacer) :
    (∀ wanted, Safe (m.split wanted pacer) (fun s => [s.1]) EncodedSplitting.matrices) ∧
    Safe (m.preimages l pacer) (fun s => [s.matrix, s.residues]) (fun answer => [answer]) ∧
    Safe (b.preimages l pacer) (fun s => [s.1]) (fun answer => [answer]) ∧
    Safe (m.quotientBasis l pacer) (fun s => [s.1]) (fun _ => []) ∧
    (m.columns ≠ l.columns → m.preimages l pacer =
      .ok ⟨⟨m, l, pacer⟩, .error (.storage (.widthMismatch m.columns l.columns))⟩) ∧
    (b.columns ≠ l.columns → b.preimages l pacer =
      .ok ⟨(l, pacer), .error (.storage (.widthMismatch b.columns l.columns))⟩) ∧
    (m.columns ≠ l.columns → Fits m.encoding l.rows l.columns → m.quotientBasis l pacer =
      .ok ⟨(m, pacer), .error (.storage (.widthMismatch m.columns l.columns))⟩) ∧
    (∀ {e : Encoding} {τ : Type} (follow : Follow e τ) (w : Workspace e) (f : τ) (total k : Nat)
      (outcome : Outcome (Elimination e τ) ReductionError Unit),
      (Elimination.start w f pacer).visitFrom follow total k 0 = .ok outcome →
        outcome.state.kept.next ≤ k) ∧
    StaysInBuffers pacer ∧
    ∀ (p : SmallPrime) (coefficient : Nat) (t s : UInt8),
      Row.Batches.Exact p (p.reduce coefficient) t s := by
  have wf := hm.wellFormed
  have wf' := hl.wellFormed
  have shaped : b.basis.Shaped b.prime b.rank b.columns b.basis.sourceRows := hb.valid
  refine ⟨?split, ?preimages, ?replay, ?quotient,
    fun apart => EncodedMatrix.preimages_of_widths_ne apart,
    fun apart => EncodedBasis.preimages_of_widths_ne apart,
    fun apart fits => EncodedMatrix.quotientBasis_of_widths_ne pacer wf wf' primes apart fits,
    ?kept, staysInBuffers pacer, ?arithmetic⟩
  case split =>
    intro wanted
    obtain ⟨outcome, call⟩ := EncodedMatrix.split_returns pacer wf wanted
    exact ⟨outcome, call, EncodedMatrix.split_wellFormed wf call⟩
  case preimages =>
    obtain ⟨outcome, call⟩ := EncodedMatrix.preimages_returns pacer wf wf' primes
    exact ⟨outcome, call, EncodedMatrix.preimages_wellFormed wf wf' call⟩
  case replay =>
    obtain ⟨outcome, call⟩ := EncodedBasis.preimages_returns hb.valid wf' basis_prime pacer
    have matrices : ∀ x ∈ b.matrices, x.matrix.WellFormed := by
      simpa [EncodedBasis.matrices, PivotBasis.matrices] using
        ⟨shaped.image.wellFormed, shaped.combinations.wellFormed⟩
    exact ⟨outcome, call, EncodedBasis.preimages_wellFormed matrices wf' call⟩
  case quotient =>
    obtain ⟨outcome, call⟩ := EncodedMatrix.quotientBasis_returns pacer wf wf' primes
    have left := EncodedMatrix.quotientBasis_wellFormed wf wf' call
    refine ⟨outcome, call, ?_⟩
    obtain ⟨state, answer⟩ := outcome
    cases answer <;> simpa using left
  case kept =>
    intro e τ follow w f total k outcome call
    have behind : outcome.state.kept.next ≤ 0 + k :=
      Elimination.visitFrom_kept call (Nat.zero_le 0)
    rwa [Nat.zero_add] at behind
  case arithmetic =>
    intro p coefficient t s
    exact Row.Batches.exact_of_reduced p (Nat.mod_lt coefficient p.pos) t s

/-- A basis that was read from bytes reduces rows in another encoding, and a matrix of another width
does not. -/
theorem reductions_safe_of_sample :
    let a := RowMatrix.tabulate .generic .two 3 3 fun i j => i * j + 1
    let rows := RowMatrix.tabulate .batched .two 2 2 fun i j => i + j
    let m : EncodedMatrix := ⟨.generic, a⟩
    let l : EncodedMatrix := ⟨.batched, rows⟩
    let b : EncodedBasis := ⟨.packed, exchange⟩
    Reachable m ∧ Reachable l ∧ Obtained b ∧ l.prime = m.prime ∧ l.prime = b.prime ∧
      Safe (m.split .everything .standard) (fun s => [s.1]) EncodedSplitting.matrices ∧
      Safe (b.preimages l .standard) (fun s => [s.1]) (fun answer => [answer]) ∧
      m.columns ≠ l.columns ∧ m.preimages l .standard =
        .ok ⟨⟨m, l, .standard⟩, .error (.storage (.widthMismatch m.columns l.columns))⟩ := by
  intro a rows m l b
  have ha : a.Shaped .two 3 3 :=
    RowMatrix.tabulate_shaped (by decide) (by decide) (by decide) (by decide) _
  have hl : rows.Shaped .two 2 2 :=
    RowMatrix.tabulate_shaped (by decide) (by decide) (by decide) (by decide) _
  have obtained : Obtained b := .decodeEncoded (EncodedBasis.reads_decode exchange_shaped [])
  have primes : l.prime = m.prime := hl.prime.trans ha.prime.symm
  have basis_prime : l.prime = b.prime := hl.prime.trans exchange_shaped.image.prime.symm
  have apart : m.columns ≠ l.columns := by
    rw [show m.columns = 3 from ha.columns, show l.columns = 2 from hl.columns]
    decide
  obtain ⟨splits, -, replay, -, unequal, -⟩ := reductions_safe ha.wellFormed.reachable
    hl.wellFormed.reachable obtained primes basis_prime .standard
  exact ⟨ha.wellFormed.reachable, hl.wellFormed.reachable, obtained, primes, basis_prime,
    splits .everything, replay, apart, unequal apart⟩

end RowReduction
