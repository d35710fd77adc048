import Mathlib

/-!
Forward elimination as linear algebra, without buffers, row numbers or errors. Rows are elements
of a space over a field with a view as vectors: the vectors themselves, or pairs of a vector and
the record of how it was obtained. Clearing by a row is linear and removes the leading column of
its view. A row is settled by clearing with all settled rows before it, and settled rows are in
echelon form.
-/
namespace RowReduction.EchelonForm

variable {K : Type*} [Field K] [DecidableEq K] {n : Nat}
variable {E : Type*} [AddCommGroup E] [Module K E]

/-- The first nonzero column of a vector. -/
def lead (v : Fin n → K) : Option (Fin n) := Fin.find? fun c => v c ≠ 0

theorem lead_eq_none {v : Fin n → K} : lead v = none ↔ v = 0 := by
  simp [lead, funext_iff]

theorem lead_eq_some {v : Fin n → K} {c : Fin n} :
    lead v = some c ↔ v c ≠ 0 ∧ ∀ d, d < c → v d = 0 := by
  simp [lead]

/-- The multiple of a row that clears its leading column from another row. -/
def clearing (view : E →ₗ[K] Fin n → K) (r : E) : E →ₗ[K] K :=
  match lead (view r) with
  | none => 0
  | some c => (-(view r c)⁻¹) • (LinearMap.proj c ∘ₗ view)

/-- Clears the leading column of row `r`, if it has one, from another row. -/
def clear (view : E →ₗ[K] Fin n → K) (r : E) : E →ₗ[K] E :=
  LinearMap.id + (clearing view r).smulRight r

/-- Clears by the given rows, one after the other. -/
def reduce (view : E →ₗ[K] Fin n → K) : List E → E →ₗ[K] E
  | [] => LinearMap.id
  | r :: rest => reduce view rest ∘ₗ clear view r

/-- The first `i` rows of an elimination, each reduced by all that come before it. -/
def settled (view : E →ₗ[K] Fin n → K) (rows : Nat → E) : Nat → List E
  | 0 => []
  | i + 1 => settled view rows i ++ [reduce view (settled view rows i) (rows i)]

/-- Row `j` when `i` rows have been visited: a row that was visited is not changed any more. -/
def stage (view : E →ₗ[K] Fin n → K) (rows : Nat → E) (i j : Nat) : E :=
  reduce view (settled view rows (min i j)) (rows j)

/-- Every row that comes later vanishes in the leading column of a row. Zero rows may stand
anywhere. -/
def IsEchelon (view : E →ₗ[K] Fin n → K) (rows : List E) : Prop :=
  rows.Pairwise fun r s => ∀ c, lead (view r) = some c → view s c = 0

variable {view : E →ₗ[K] Fin n → K}

theorem clear_apply (r x : E) : clear view r x = x + clearing view r x • r := rfl

theorem clear_of_lead_none {r : E} (none_left : lead (view r) = none) (x : E) :
    clear view r x = x := by
  simp [clear_apply, clearing, none_left]

variable (view) in
theorem clear_of_lead {r : E} {c : Fin n} (leads : lead (view r) = some c) (x : E) :
    clear view r x = x + (-(view r c)⁻¹ * view x c) • r := by
  simp [clear_apply, clearing, leads]

variable (view) in
theorem clear_of_zero {r x : E} {c : Fin n} (leads : lead (view r) = some c)
    (zero : view x c = 0) : clear view r x = x := by
  rw [clear_of_lead view leads, zero, mul_zero, zero_smul, add_zero]

theorem view_clear_lead {r : E} {c : Fin n} (leads : lead (view r) = some c) (x : E) :
    view (clear view r x) c = 0 := by
  have nonzero := (lead_eq_some.mp leads).1
  rw [clear_of_lead view leads, map_add, map_smul, Pi.add_apply, Pi.smul_apply, smul_eq_mul]
  field_simp
  ring

theorem view_clear_of_zero {r : E} {d : Fin n} (zero : view r d = 0) (x : E) :
    view (clear view r x) d = view x d := by
  simp [clear_apply, zero]

/-- Clearing stays within a subspace that contains the row, if the row has a leading column. -/
theorem clear_sub_mem (S : Submodule K E) {r : E} (member : view r ≠ 0 → r ∈ S) (x : E) :
    clear view r x - x ∈ S := by
  by_cases zero : view r = 0
  · rw [clear_of_lead_none (lead_eq_none.mpr zero), sub_self]
    exact S.zero_mem
  · rw [clear_apply, add_sub_cancel_left]
    exact S.smul_mem _ (member zero)

@[simp]
theorem reduce_nil (x : E) : reduce view [] x = x := rfl

@[simp]
theorem reduce_cons (r : E) (rest : List E) (x : E) :
    reduce view (r :: rest) x = reduce view rest (clear view r x) := rfl

theorem reduce_append (rows later : List E) (x : E) :
    reduce view (rows ++ later) x = reduce view later (reduce view rows x) := by
  induction rows generalizing x with
  | nil => rfl
  | cons r rest ih => exact ih (clear view r x)

/-- Rows do not change a row that vanishes in all of their leading columns. -/
theorem reduce_of_zero {list : List E} {x : E}
    (zero : ∀ r ∈ list, ∀ c, lead (view r) = some c → view x c = 0) : reduce view list x = x := by
  induction list with
  | nil => rfl
  | cons r rest ih =>
    have unchanged : clear view r x = x := by
      cases leads : lead (view r) with
      | none => exact clear_of_lead_none leads x
      | some c => exact clear_of_zero view leads (zero r List.mem_cons_self c leads)
    rw [reduce_cons, unchanged]
    exact ih fun s hs => zero s (List.mem_cons_of_mem r hs)

variable (view) in
theorem reduce_sub_mem (S : Submodule K E) (rows : List E)
    (members : ∀ r ∈ rows, view r ≠ 0 → r ∈ S) (x : E) : reduce view rows x - x ∈ S := by
  induction rows generalizing x with
  | nil => simp
  | cons r rest ih =>
    have first := clear_sub_mem S (members r List.mem_cons_self) x
    have others := ih (fun s hs => members s (List.mem_cons_of_mem r hs)) (clear view r x)
    rw [reduce_cons, ← sub_add_sub_cancel _ (clear view r x) x]
    exact S.add_mem others first

theorem view_reduce_of_zero {rows : List E} {d : Fin n} (zero : ∀ r ∈ rows, view r d = 0) (x : E) :
    view (reduce view rows x) d = view x d := by
  induction rows generalizing x with
  | nil => rfl
  | cons r rest ih =>
    rw [reduce_cons, ih fun s hs => zero s (List.mem_cons_of_mem r hs),
      view_clear_of_zero (zero r List.mem_cons_self)]

/-- Reducing by rows in echelon form clears all of their leading columns: no later row fills a
column again. -/
theorem view_reduce_lead {rows : List E} (echelon : IsEchelon view rows) {r : E} (member : r ∈ rows)
    {c : Fin n} (leads : lead (view r) = some c) (x : E) : view (reduce view rows x) c = 0 := by
  induction rows generalizing x with
  | nil => simp at member
  | cons s rest ih =>
    obtain ⟨below, echelon⟩ := List.pairwise_cons.mp echelon
    rw [reduce_cons]
    rcases List.mem_cons.mp member with rfl | later
    · rw [view_reduce_of_zero (fun t ht => below t ht c leads), view_clear_lead leads]
    · exact ih echelon later (clear view s x)

/-- Zero rows do not take part. -/
theorem reduce_filter (rows : List E) (x : E) :
    reduce view (rows.filter fun r => view r ≠ 0) x = reduce view rows x := by
  induction rows generalizing x with
  | nil => rfl
  | cons r rest ih =>
    by_cases zero : view r = 0
    · rw [List.filter_cons_of_neg (by simpa using zero), ih, reduce_cons,
        clear_of_lead_none (lead_eq_none.mpr zero)]
    · rw [List.filter_cons_of_pos (by simpa using zero), reduce_cons, reduce_cons, ih]

omit [DecidableEq K] in
/-- What vanishes in a column of all rows vanishes there in their whole span. -/
theorem view_of_mem_span {S : Set E} {c : Fin n} (zero : ∀ r ∈ S, view r c = 0) {x : E}
    (member : x ∈ Submodule.span K S) : view x c = 0 := by
  have inside : Submodule.span K S ≤ LinearMap.ker (LinearMap.proj c ∘ₗ view) :=
    Submodule.span_le.mpr zero
  exact inside member

/-- In the span of rows in echelon form, only combinations of zero rows vanish in all leading
columns. -/
theorem mem_span_zero_rows {rows : List E} (echelon : IsEchelon view rows) {z : E}
    (member : z ∈ Submodule.span K {r | r ∈ rows})
    (vanishes : ∀ r ∈ rows, ∀ c, lead (view r) = some c → view z c = 0) :
    z ∈ Submodule.span K {r | r ∈ rows ∧ view r = 0} := by
  induction rows generalizing z with
  | nil =>
    simp only [List.not_mem_nil, Set.ofPred_false, Submodule.span_empty] at member
    rw [Submodule.mem_bot] at member
    rw [member]
    exact Submodule.zero_mem _
  | cons r rest ih =>
    obtain ⟨below, echelon⟩ := List.pairwise_cons.mp echelon
    rw [List.setOfPred_mem_cons, Submodule.mem_span_insert] at member
    obtain ⟨a, y, hy, rfl⟩ := member
    have wider : Submodule.span K {s | s ∈ rest ∧ view s = 0} ≤
        Submodule.span K {s | s ∈ r :: rest ∧ view s = 0} :=
      Submodule.span_mono fun s hs => ⟨List.mem_cons_of_mem r hs.1, hs.2⟩
    cases leads : lead (view r) with
    | none =>
      have zero := lead_eq_none.mp leads
      have tail := ih echelon hy fun s hs c hc => by
        have total := vanishes s (List.mem_cons_of_mem r hs) c hc
        simpa [zero] using total
      apply Submodule.add_mem _ _ (wider tail)
      exact Submodule.smul_mem _ _ (Submodule.subset_span ⟨List.mem_cons_self, zero⟩)
    | some c =>
      have nonzero := (lead_eq_some.mp leads).1
      have blank := view_of_mem_span (fun s hs => below s hs c leads) hy
      have total := vanishes r List.mem_cons_self c leads
      rw [map_add, map_smul, Pi.add_apply, Pi.smul_apply, smul_eq_mul, blank, add_zero] at total
      have absent : a = 0 := (mul_eq_zero.mp total).resolve_right nonzero
      rw [absent, zero_smul, zero_add] at vanishes ⊢
      exact wider (ih echelon hy fun s hs => vanishes s (List.mem_cons_of_mem r hs))

end RowReduction.EchelonForm
