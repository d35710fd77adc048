import RowReduction.Violation
/-!
Sizes of buffers. Sizes are 64-bit numbers: a size that would be larger saturates, and a buffer of
that size is refused by the allocator like any other that is too large. A refusal is an ordinary
error, and so are the other errors that a stored matrix can report to its user.
-/
namespace RowReduction

namespace Storage

def maxSize : Nat := UInt64.size - 1

/-- A buffer of more bytes than this cannot even be asked for. -/
def capacityLimit : Nat := (1 <<< 63) - 1

/-- How much memory there is. A buffer of `limit` bytes cannot be allocated, and a smaller one
can. -/
class Memory where
  limit : Nat
  limit_pos : 0 < limit
  limit_le : limit ≤ capacityLimit + 1

/-- The memory of a process whose addresses have 47 bits. -/
instance addressSpace : Memory where
  limit := 1 <<< 47
  limit_pos := by decide
  limit_le := by decide

def allocationLimit [memory : Memory] : Nat := memory.limit

theorem allocationLimit_pos [Memory] : 0 < allocationLimit := Memory.limit_pos

theorem allocationLimit_le [Memory] : allocationLimit ≤ capacityLimit + 1 := Memory.limit_le

theorem allocationLimit_le_maxSize [Memory] : allocationLimit ≤ maxSize :=
  Nat.le_trans allocationLimit_le (by decide)

/-- The least number of the given multiples that is at least `n`, saturated. -/
def align (n multiple : Nat) : Nat :=
  if n + (multiple - 1) ≤ maxSize then (n + (multiple - 1)) / multiple * multiple else maxSize

theorem le_align {n multiple : Nat} (positive : 0 < multiple) (size : n ≤ maxSize) :
    n ≤ align n multiple := by
  unfold align
  split
  · have division := Nat.div_add_mod (n + (multiple - 1)) multiple
    have remainder := Nat.mod_lt (n + (multiple - 1)) positive
    rw [Nat.mul_comm] at division
    omega
  · exact size

theorem align_le_maxSize (n multiple : Nat) : align n multiple ≤ maxSize := by
  unfold align
  split
  · exact Nat.le_trans (Nat.div_mul_le_self _ _) ‹_›
  · exact Nat.le_refl _

/-- The length of a buffer of `rows` rows with `stride` cells each, saturated. -/
def length (rows stride : Nat) : Nat := min (rows * stride) maxSize

end Storage

inductive StorageError where
  | outOfMemory (cells bytes : Nat)
  | widthMismatch (left right : Nat)
  | outOfBounds (row column rows columns : Nat)
  deriving DecidableEq, Repr

def StorageError.message : StorageError → String
  | .outOfMemory cells bytes =>
    let reason :=
      if Storage.capacityLimit < bytes then
        "the computed capacity exceeded the collection's maximum"
      else "the memory allocator returned an error"
    s!"out of memory while allocating {cells} entries: memory allocation failed because {reason}"
  | .widthMismatch left right =>
    s!"dimensions inconsistent: {left} columns against {right} columns"
  | .outOfBounds row column rows columns =>
    s!"entry ({row}, {column}) is out of bounds for a {rows} x {columns} matrix"

/-- A computation that can be refused storage, or stop at a violation. -/
abbrev Build := ExceptT StorageError Checked

def checkWidths (left right : Nat) : Except StorageError Unit :=
  if left = right then .ok () else .error (.widthMismatch left right)

theorem checkWidths_eq_ok {left right : Nat} : checkWidths left right = .ok () ↔ left = right := by
  by_cases h : left = right <;> simp [checkWidths, h]

section

variable [Storage.Memory]

def checkAllocation (cellBytes n : Nat) : Except StorageError Unit :=
  if n * cellBytes < Storage.allocationLimit then .ok ()
  else .error (.outOfMemory n (n * cellBytes))

/-- Cuts or extends a buffer to `n` cells, new ones being `zero`. Only growth can fail. -/
def resizeCells {α : Type} (zero : α) (cellBytes : Nat) (cells : Array α) (n : Nat) :
    Except StorageError (Array α) :=
  if n ≤ cells.size then .ok (cells.extract 0 n)
  else do
    checkAllocation cellBytes n
    return cells ++ Array.replicate (n - cells.size) zero

end

def overwriteCells {α : Type} (buffer : Array α) (start n : Nat) (cell : Nat → α) : Array α :=
  n.fold (fun k _ overwritten => overwritten.setIfInBounds (start + k) (cell k)) buffer

@[simp]
theorem size_overwriteCells {α : Type} (buffer : Array α) (start n : Nat) (cell : Nat → α) :
    (overwriteCells buffer start n cell).size = buffer.size := by
  unfold overwriteCells
  induction n with
  | zero => rfl
  | succ n ih => simp [Nat.fold_succ, ih]

theorem getElem?_overwriteCells {α : Type} (buffer : Array α) (start n : Nat) (cell : Nat → α)
    (position : Nat) :
    (overwriteCells buffer start n cell)[position]? =
      if start ≤ position ∧ position < start + n ∧ position < buffer.size then
        some (cell (position - start))
      else buffer[position]? := by
  induction n with
  | zero =>
    unfold overwriteCells
    simp
    omega
  | succ n ih =>
    have step : overwriteCells buffer start (n + 1) cell =
        (overwriteCells buffer start n cell).setIfInBounds (start + n) (cell n) := by
      simp [overwriteCells, Nat.fold_succ]
    rw [step, Array.getElem?_setIfInBounds, size_overwriteCells, ih]
    by_cases last : start + n = position
    · subst last
      by_cases inside : start + n < buffer.size
      · simp [inside]
      · simp [inside]
    · have same : position < start + (n + 1) ↔ position < start + n := by omega
      simp [last, same]

/-- What a call leaves in the place of its arguments, and its answer or the reason why it stopped
short. -/
structure Outcome (σ ε α : Type) where
  state : σ
  answer : Except ε α

end RowReduction
