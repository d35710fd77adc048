import RowReduction.Storage
/-!
Progress reports and cooperative cancellation. A long loop over rows passes a checkpoint at every
row, and a pacer looks only at rows whose number is a multiple of a power of two. There it first
looks at a flag that may ask to stop, and then reports how far the loop has come. Reports are
recorded by what they stand for, and `Report.value` is the number that is shown.
-/
namespace RowReduction

/-- Why a reduction did not finish. What it worked on may then be partly reduced. -/
inductive ReductionError where
  | storage (cause : StorageError)
  | interrupted
  deriving DecidableEq, Repr

def ReductionError.message : ReductionError → String
  | .storage cause => cause.message
  | .interrupted => "interrupted"

inductive Report where
  | atRow (row total : Nat)
  | endOfPass
  deriving DecidableEq, Repr

/-- The eased fraction `1 - (1 - row / total) ^ 2` of the work, or -1 for the end of a pass. -/
def Report.value : Report → Float
  | .atRow row total =>
    let remaining := 1.0 - (UInt64.ofNat row).toFloat / (UInt64.ofNat (max total 1)).toFloat
    1.0 - remaining * remaining
  | .endOfPass => -1.0

/-- A flag that asks a reduction to stop while it is raised. -/
structure StopFlag where
  raised : Bool
  deriving DecidableEq, Repr

namespace StopFlag

def raise (_ : StopFlag) : StopFlag := ⟨true⟩

def lower (_ : StopFlag) : StopFlag := ⟨false⟩

end StopFlag

/-- The receiver of reports. It is told the number of a report, counted from 1, and may answer by
raising the flag. -/
abbrev Listener := (number : Nat) → Report → Bool

/-- Decides at which rows a loop reports and may be stopped, and keeps the reports so far. -/
structure Pacer where
  mask : Nat
  listener : Option Listener
  flag : Option StopFlag
  reports : Array Report

namespace Pacer

def standardShift : Nat := 6

def shiftLimit : Nat := 64

def ofShift (shift : Nat) : Pacer := ⟨(1 <<< shift) - 1, none, none, #[]⟩

def standard : Pacer := ofShift standardShift

def new (shift : Nat) : Checked Pacer := do
  require (shift < shiftLimit) (.sampleShiftTooLarge shift)
  return ofShift shift

def withListener (s : Pacer) (listener : Listener) : Pacer := { s with listener := some listener }

def withFlag (s : Pacer) (flag : StopFlag) : Pacer := { s with flag := some flag }

def mapFlag (s : Pacer) (f : StopFlag → StopFlag) : Pacer := { s with flag := s.flag.map f }

/-- Delivers a report to the listener, if there is one, which may raise the flag. -/
def deliver (s : Pacer) (report : Report) : Pacer :=
  match s.listener with
  | none => s
  | some listener =>
    let reports := s.reports.push report
    let told := { s with reports }
    if listener reports.size report then told.mapFlag StopFlag.raise else told

def mustStop (s : Pacer) : Bool := s.flag.any (·.raised)

def samples (s : Pacer) (row : Nat) : Bool := row &&& s.mask == 0

/-- What a loop does before it works on row `row` of `total`. -/
def checkpoint (s : Pacer) (row total : Nat) : Outcome Pacer ReductionError Unit :=
  if s.samples row = false then ⟨s, .ok ()⟩
  else if s.mustStop then ⟨s, .error .interrupted⟩
  else ⟨s.deliver (.atRow row total), .ok ()⟩

def endPass (s : Pacer) : Pacer := s.deliver .endOfPass

def describe (s : Pacer) : String :=
  let flag := match s.flag with
    | none => "None"
    | some flag => s!"Some(CancelToken({flag.raised}))"
  s!"Sampler \x7b mask: {s.mask}, progress: {s.listener.isSome}, cancel: {flag} \x7d"

end Pacer

end RowReduction
