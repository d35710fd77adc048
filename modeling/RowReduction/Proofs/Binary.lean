import Mathlib
import RowReduction.RowMatrix.Binary
import RowReduction.Proofs.Construction

/-!
Reading back what was written. A decoder reads given bytes if it takes exactly these from the
front of every input that starts with them. Decoders in sequence read the bytes in sequence, so
each format is read back field by field. Of other input, what is read at least has a size that fits
in a word.
-/
namespace RowReduction

namespace Binary

variable {α β : Type}

/-- The decoder `d` takes exactly `bytes` and answers `a`, whatever follows them. -/
def Reads (d : Decoder α) (bytes : List UInt8) (a : α) : Prop :=
  ∀ rest, d (bytes ++ rest) = pure (a, rest)

theorem reads_pure (a : α) : Reads (pure a) [] a := fun _ => rfl

theorem run_bind (d : Decoder α) (next : α → Decoder β) (input : List UInt8) :
    (d >>= next) input = d input >>= fun taken => next taken.1 taken.2 := rfl

theorem Reads.bind {d : Decoder α} {f : α → Decoder β} {bytes bytes' : List UInt8} {a : α} {b : β}
    (first : Reads d bytes a) (second : Reads (f a) bytes' b) :
    Reads (d >>= f) (bytes ++ bytes') b := by
  intro rest
  rw [run_bind, List.append_assoc, first (bytes' ++ rest), pure_bind]
  exact second rest

theorem Reads.bind_nil {d : Decoder α} {f : α → Decoder β} {bytes : List UInt8} {a : α} {b : β}
    (first : Reads d [] a) (second : Reads (f a) bytes b) : Reads (d >>= f) bytes b :=
  first.bind second

theorem Reads.bind_pure {d : Decoder α} {bytes : List UInt8} {a : α} (first : Reads d bytes a)
    (f : α → β) : Reads (d >>= fun a => pure (f a)) bytes (f a) := by
  have both : Reads (d >>= fun a => pure (f a)) (bytes ++ []) (f a) :=
    first.bind (reads_pure (f a))
  rwa [List.append_nil] at both

theorem reads_takeByte (b : UInt8) : Reads takeByte [b] b := fun _ => rfl

theorem takeWord_eq (input : List UInt8) : takeWord input =
    if (input.take wordBytes).length < wordBytes then throw .endOfInput
    else pure (ofLittleEndian (input.take wordBytes), input.drop wordBytes) := by
  have run : takeWord input =
      (if (input.take wordBytes).length < wordBytes then
        (do throw .endOfInput; set (input.drop wordBytes)
            return ofLittleEndian (input.take wordBytes) : Decoder Nat)
      else do
        set (input.drop wordBytes)
        return ofLittleEndian (input.take wordBytes)) input := rfl
  rw [run]
  split <;> rfl

@[simp]
theorem length_word (n : Nat) : (word n).length = wordBytes := length_littleEndian wordBytes n

theorem reads_takeWord {n : Nat} (size : n ≤ Storage.maxSize) : Reads takeWord (word n) n := by
  intro rest
  rw [takeWord_eq, List.take_left' (length_word n), List.drop_left' (length_word n), length_word,
    if_neg (Nat.lt_irrefl wordBytes), ofLittleEndian_word size]

theorem reads_build {construction : Build α} {a : α} (built : construction = pure a) :
    Reads (build construction) [] a := by
  intro rest
  rw [built]
  rfl

theorem reads_lift {checked : Checked α} {a : α} (ok : checked = .ok a) :
    Reads (liftM checked) [] a := by
  intro rest
  rw [ok]
  rfl

theorem run_lift_bind {checked : Checked α} {a : α} (ok : checked = .ok a) (next : α → Decoder β)
    (input : List UInt8) : (liftM checked >>= next) input = next a input := by
  rw [ok]
  rfl

theorem run_lift_bind_error {checked : Checked α} {v : Violation} (stopped : checked = .error v)
    (next : α → Decoder β) (input : List UInt8) :
    (liftM checked >>= next) input = .error v := by
  rw [stopped]
  rfl

/-- A supported prime fits in a byte, and so do its residues. -/
theorem toNat_ofNat_of_le {p : SmallPrime} {x : Nat} (small : x ≤ p.val) :
    (UInt8.ofNat x).toNat = x := by
  have bound := p.le_251
  simp only [UInt8.toNat_ofNat']
  omega

theorem reads_takeResidues (p : SmallPrime) (residues : List Nat)
    (reduced : ∀ x ∈ residues, x < p.val) :
    Reads (takeResidues p residues.length) (residues.map UInt8.ofNat) residues := by
  induction residues with
  | nil => exact reads_pure []
  | cons x rest ih =>
    have small := reduced x List.mem_cons_self
    have byte := toNat_ofNat_of_le (Nat.le_of_lt small)
    refine (reads_takeByte (UInt8.ofNat x)).bind ?_
    simp only [byte, if_neg (Nat.not_le_of_lt small)]
    exact (ih fun y hy => reduced y (List.mem_cons_of_mem x hy)).bind_pure (x :: ·)

end Binary

namespace Binary

variable {α β : Type}

theorem run_bind_eq_pure {d : Decoder α} {next : α → Decoder β} {input : List UInt8}
    {result : β × List UInt8} : (d >>= next) input = pure result ↔
      ∃ a rest, d input = pure (a, rest) ∧ next a rest = pure result := by
  rw [run_bind, bind_eq_pure, Prod.exists]

theorem ofLittleEndian_lt (bytes : List UInt8) : ofLittleEndian bytes < 256 ^ bytes.length := by
  induction bytes with
  | nil => decide
  | cons b rest ih =>
    have byte := b.toNat_lt
    simp only [ofLittleEndian, List.length_cons, Nat.pow_succ]
    omega

theorem ofLittleEndian_take_le (input : List UInt8) :
    ofLittleEndian (input.take wordBytes) ≤ Storage.maxSize := by
  have small := ofLittleEndian_lt (input.take wordBytes)
  have length : (input.take wordBytes).length ≤ wordBytes := List.length_take_le _ _
  have bound : 256 ^ (input.take wordBytes).length ≤ 256 ^ wordBytes :=
    Nat.pow_le_pow_right (by decide) length
  have largest : 256 ^ wordBytes = Storage.maxSize + 1 := by decide
  omega

theorem le_of_takeWord {input rest : List UInt8} {n : Nat}
    (taken : takeWord input = pure (n, rest)) : n ≤ Storage.maxSize := by
  rw [takeWord_eq] at taken
  split at taken
  · cases taken
  · cases taken
    exact ofLittleEndian_take_le input

theorem takeByte_eq_pure {input rest : List UInt8} {b : UInt8} :
    takeByte input = pure (b, rest) ↔ input = b :: rest := by
  constructor
  · intro taken
    cases input with
    | nil => cases taken
    | cons _ _ =>
      cases taken
      rfl
  · rintro rfl
    rfl

theorem takeWord_eq_pure {input rest : List UInt8} {n : Nat} :
    takeWord input = pure (n, rest) ↔ n ≤ Storage.maxSize ∧ input = word n ++ rest := by
  constructor
  · intro taken
    refine ⟨le_of_takeWord taken, ?_⟩
    rw [takeWord_eq] at taken
    split at taken
    · cases taken
    · rename_i enough
      cases taken
      have length : (input.take wordBytes).length = wordBytes :=
        Nat.le_antisymm (List.length_take_le _ _) (Nat.le_of_not_lt enough)
      have bytes := littleEndian_ofLittleEndian (input.take wordBytes)
      rw [length] at bytes
      rw [word, bytes, List.take_append_drop]
  · rintro ⟨size, rfl⟩
    exact reads_takeWord size rest

theorem takeResidues_eq_pure {p : SmallPrime} {n : Nat} {input rest : List UInt8}
    {residues : List Nat} : takeResidues p n input = pure (residues, rest) ↔
      residues.length = n ∧ (∀ x ∈ residues, x < p.val) ∧
        input = residues.map UInt8.ofNat ++ rest := by
  constructor
  · intro taken
    induction n generalizing input residues with
    | zero =>
      cases taken
      exact ⟨rfl, List.forall_mem_nil _, rfl⟩
    | succ n ih =>
      rw [takeResidues, run_bind_eq_pure] at taken
      obtain ⟨byte, others, first, taken⟩ := taken
      split at taken
      · cases taken
      · rename_i small
        obtain ⟨later, _, taken, result⟩ := run_bind_eq_pure.mp taken
        cases result
        obtain ⟨length, reduced, bytes⟩ := ih taken
        refine ⟨congrArg Nat.succ length,
          List.forall_mem_cons.mpr ⟨Nat.lt_of_not_le small, reduced⟩, ?_⟩
        rw [takeByte_eq_pure.mp first, bytes, List.map_cons, UInt8.ofNat_toNat, List.cons_append]
  · rintro ⟨rfl, reduced, rfl⟩
    exact reads_takeResidues p residues reduced rest

theorem build_eq_pure {construction : Build α} {input rest : List UInt8} {a : α} :
    build construction input = pure (a, rest) ↔ construction = pure a ∧ rest = input := by
  constructor
  · intro built
    match construction, built with
    | .ok (.ok a), built =>
      cases built
      exact ⟨rfl, rfl⟩
  · rintro ⟨built, rfl⟩
    exact reads_build built rest

end Binary

namespace RowMatrix

open Binary

variable [Storage.Memory] {e : Encoding} {p : SmallPrime} {m : RowMatrix e} {r n : Nat}

def flat (m : RowMatrix e) (r n : Nat) : List Nat :=
  (List.range (r * n)).map fun k => m.read (k / n) (k % n)

theorem Shaped.flat_lt (h : m.Shaped p r n) : ∀ x ∈ m.flat r n, x < p.val := by
  intro x member
  obtain ⟨k, hk, rfl⟩ := List.mem_map.mp member
  obtain ⟨row, column⟩ := position_lt (List.mem_range.mp hk)
  exact h.read_lt row column

omit [Storage.Memory] in
@[simp]
theorem length_flat : (m.flat r n).length = r * n := by simp [flat]

omit [Storage.Memory] in
theorem getElem?_flat {i j : Nat} (hi : i < r) (hj : j < n) :
    (m.flat r n)[i * n + j]? = some (m.read i j) := by
  obtain ⟨row, column⟩ := position_split i hj
  simp [flat, position_inside hi hj, row, column]

omit [Storage.Memory] in
theorem getD_flat {i j : Nat} (hi : i < r) (hj : j < n) :
    (m.flat r n).toArray.getD (i * n + j) 0 = m.read i j := by
  simp [getElem?_flat hi hj]

theorem Shaped.encode_eq (h : m.Shaped p r n) :
    m.encode = word r ++ (word n ++ (m.flat r n).map UInt8.ofNat) := by
  simp only [encode, flat, h.rows, h.columns, List.map_map, List.append_assoc]
  rfl

/-- A matrix is read back from its bytes. -/
theorem Shaped.reads_decode (h : m.Shaped p r n) : Reads (decode p) m.encode m := by
  have entries := reads_takeResidues p (m.flat r n) h.flat_lt
  rw [length_flat] at entries
  rw [h.encode_eq]
  refine (reads_takeWord h.rows_le).bind ((reads_takeWord h.columns_le).bind ?_)
  refine (reads_build (checkNew_of_fits h.supported h.fits)).bind_nil ?_
  rw [← List.append_nil ((m.flat r n).map UInt8.ofNat)]
  refine entries.bind ((reads_build (new_of_fits h.supported h.fits)).bind_nil ?_)
  have filled : (blank e p r n).fill (fun i j => (m.flat r n).toArray.getD (i * n + j) 0) = m :=
    h.tabulate_eq fun i j hi hj => getD_flat hi hj
  rw [filled]
  exact reads_pure m

end RowMatrix

end RowReduction
