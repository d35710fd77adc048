import Mathlib
import RowReduction.Pacing

/-!
How a loop passes its checkpoints, apart from what it does between them: which reports are
delivered, and at which row the loop is interrupted, if at all.
-/
namespace RowReduction.Pacer

/-- Passes the checkpoints of the next `remaining` rows from row `i` on, up to the row at which the
loop is interrupted. -/
def walk (s : Pacer) (total : Nat) : (remaining i : Nat) → Pacer × Option Nat
  | 0, _ => (s, none)
  | remaining + 1, i =>
    match s.checkpoint i total with
    | ⟨s, .error _⟩ => (s, some i)
    | ⟨s, .ok ()⟩ => s.walk total remaining (i + 1)

def afterRows (s : Pacer) (total : Nat) : Pacer := (s.walk total total 0).1

/-- The row at which a loop over `total` rows is interrupted. -/
def stopRow (s : Pacer) (total : Nat) : Option Nat := (s.walk total total 0).2

/-- How a loop ends that was interrupted at the given row, if at all. -/
def ending : Option Nat → Except ReductionError Unit
  | none => .ok ()
  | some _ => .error .interrupted

variable {s : Pacer}

theorem deliver_flag_isSome (report : Report) : (s.deliver report).flag.isSome = s.flag.isSome := by
  unfold deliver
  cases s.listener with
  | none => rfl
  | some listener =>
    dsimp only
    split
    · exact Option.isSome_map
    · rfl

/-- A checkpoint is passed, or it interrupts the loop because the flag is raised. -/
theorem checkpoint_cases (s : Pacer) (row total : Nat) :
    (∃ s', s.checkpoint row total = ⟨s', .ok ()⟩ ∧ s'.flag.isSome = s.flag.isSome) ∨
      s.checkpoint row total = ⟨s, .error .interrupted⟩ ∧ s.mustStop = true := by
  unfold checkpoint
  split
  · exact Or.inl ⟨s, rfl, rfl⟩
  · split
    · rename_i raised
      exact Or.inr ⟨rfl, raised⟩
    · exact Or.inl ⟨_, rfl, deliver_flag_isSome _⟩

theorem walk_range (total remaining i : Nat) {row : Nat}
    (stopped : (s.walk total remaining i).2 = some row) : i ≤ row ∧ row < i + remaining := by
  induction remaining generalizing s i with
  | zero => simp [walk] at stopped
  | succ remaining ih =>
    rw [walk] at stopped
    rcases checkpoint_cases s i total with ⟨s', passed, -⟩ | ⟨here, -⟩
    · rw [passed] at stopped
      have later := ih (i + 1) stopped
      omega
    · rw [here] at stopped
      have same : i = row := by simpa using stopped
      omega

/-- The row that a loop reaches, and stops at or has done all before, is not behind its start. -/
theorem le_reached (s : Pacer) (total remaining i : Nat) :
    i ≤ (s.walk total remaining i).2.getD (i + remaining) := by
  cases walked : (s.walk total remaining i).2 with
  | none => exact Nat.le_add_right i remaining
  | some row => exact (walk_range total remaining i walked).1

/-- Only a loop with a flag is ever interrupted. -/
theorem walk_of_no_flag (total remaining i : Nat) (unstoppable : s.flag.isSome = false) :
    (s.walk total remaining i).2 = none := by
  induction remaining generalizing s i with
  | zero => rfl
  | succ remaining ih =>
    rw [walk]
    rcases checkpoint_cases s i total with ⟨s', passed, same⟩ | ⟨_, raised⟩
    · rw [passed]
      exact ih (i + 1) (same.trans unstoppable)
    · have absent : s.flag = none := by simpa using unstoppable
      simp [mustStop, absent] at raised

theorem stopRow_of_no_flag (total : Nat) (unstoppable : s.flag.isSome = false) :
    s.stopRow total = none :=
  walk_of_no_flag total total 0 unstoppable

/-- The rows from `i` up to the one that is reached, if at least one step is made. -/
theorem range_reached {i reached : Nat} (forward : i + 1 ≤ reached) :
    List.range' i (reached - i) = i :: List.range' (i + 1) (reached - (i + 1)) := by
  have steps : reached - i = reached - (i + 1) + 1 := by omega
  rw [steps, List.range'_succ]

end RowReduction.Pacer
