import RowReduction.PivotBasis
/-!
The split of a matrix into an independent image and a kernel. Forward elimination leaves the
independent rows in place. The change of basis starts as the identity and takes part in every row
operation, so its row `i` always tells which combination of initial rows stands in row `i`: at the
dependent rows it holds the kernel.
-/
namespace RowReduction

structure Wanted where
  kernel : Bool
  dual : Bool
  basis : Bool
  deriving DecidableEq, Repr

namespace Wanted

def nothing : Wanted := ⟨false, false, false⟩

def onlyKernel : Wanted := ⟨true, false, false⟩

def everything : Wanted := ⟨true, true, true⟩

end Wanted

/-- The outputs of a splitting, over matrices of type `M`. Row `t` of the kernel and of the dual
belongs to the `t`-th dependent row. -/
structure Splitting (M : Type) where
  rank : Nat
  kernel : Option M
  dual : Option M
  basis : Option (PivotBasis M)
  deriving DecidableEq

def Splitting.mapBuild {M N : Type} (f : M → Build N) (d : Splitting M) :
    Build (Splitting N) := do
  let kernel ← d.kernel.mapM f
  let dual ← d.dual.mapM f
  let basis ← d.basis.mapM (PivotBasis.mapBuild f)
  return ⟨d.rank, kernel, dual, basis⟩

namespace RowMatrix

variable [Storage.Memory] {e : Encoding}

@[macro_inline]
def onDemand {α : Type} (wanted : Bool) (construction : Build α) : Build (Option α) :=
  if wanted then some <$> construction else return none

def keepDependent (m : RowMatrix e) (dependent : List Nat) : Build (RowMatrix e) := do
  let kept ← m.keepRows dependent
  liftM kept.answer
  return kept.state

/-- Collects the wanted outputs of a finished elimination. The basis is copied before the change of
basis is shrunk to the kernel. -/
def outputs {τ : Type} (wanted : Wanted) (s : Elimination e τ) :
    Build (Splitting (RowMatrix e)) := do
  let pivots := s.pivots.toList
  let dependent := s.dependent.toList
  let matrix := s.workspace.matrix
  let combination := s.workspace.combination
  let basis ← match combination with
    | some u => onDemand wanted.basis (PivotBasis.collect matrix u pivots)
    | none => pure none
  let kernel ← match combination with
    | some u => onDemand wanted.kernel (u.keepDependent dependent)
    | none => pure none
  let dual ← s.workspace.dual.mapM fun d => d.keepDependent dependent
  return ⟨pivots.length, kernel, dual, basis⟩

/-- The identities that take part in the elimination of a matrix with the given number of rows. -/
def identities (p : SmallPrime) (rows : Nat) (wanted : Wanted) :
    Build (Option (RowMatrix e) × Option (RowMatrix e)) := do
  let combination ← onDemand (wanted.kernel || wanted.basis) (identity p rows)
  let dual ← onDemand wanted.dual (identity p rows)
  return (combination, dual)

/-- Eliminates a matrix in place, which leaves its independent rows in their order, and answers with
the wanted outputs. -/
def split (m : RowMatrix e) (wanted : Wanted) (pacer : Pacer) :
    Checked (Outcome (RowMatrix e × Pacer) ReductionError (Splitting (RowMatrix e))) := do
  match ← (identities m.prime m.rows wanted).run with
  | .error failure => return ⟨(m, pacer), .error (.storage failure)⟩
  | .ok (combination, dual) =>
    let start := Elimination.start ⟨m, combination, dual⟩ () pacer
    let ⟨s, eliminated⟩ ← start.run fun _ _ _ => return ()
    let left := (s.workspace.matrix, s.pacer)
    match eliminated with
    | .error stopped => return ⟨left, .error stopped⟩
    | .ok () =>
      match ← (outputs wanted s).run with
      | .error failure => return ⟨left, .error (.storage failure)⟩
      | .ok splitting => return ⟨left, .ok splitting⟩

end RowMatrix

end RowReduction
