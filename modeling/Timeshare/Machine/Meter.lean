namespace Timeshare

/-!
# Metering

A meter hears of the cost of each instruction and says when a run has to stop.  `TimeSlice`
stops a run as soon as its budget is used up; an instruction may overrun it.
-/

/-- Whether a run may go on. -/
inductive Verdict where
  | proceed
  | stop
  deriving DecidableEq, Repr

/-- A budget of time units and what is left of it. -/
structure TimeSlice where
  budget : UInt64
  remaining : UInt64
  deriving DecidableEq, Repr

namespace TimeSlice

/-- A time slice of which nothing is used yet. -/
def fresh (budget : UInt64) : TimeSlice := ⟨budget, budget⟩

/-- The part of the budget that is used up. -/
def consumed (s : TimeSlice) : UInt64 := s.budget - s.remaining

/-- Takes a cost off a time slice.  The run has to stop once nothing is left. -/
def charge (s : TimeSlice) (cost : UInt64) : Verdict × TimeSlice :=
  let left := if s.remaining ≤ cost then 0 else s.remaining - cost
  (if left = 0 then .stop else .proceed, { s with remaining := left })

end TimeSlice

/-- What limits a run. -/
inductive Meter where
  /-- Nothing: the run goes on until the program ends it. -/
  | unlimited
  /-- A time slice. -/
  | slice (s : TimeSlice)
  deriving DecidableEq, Repr

/-- Tells a meter the cost of an instruction. -/
def Meter.charge : Meter → UInt64 → Verdict × Meter
  | .unlimited, _ => (.proceed, .unlimited)
  | .slice s, cost => let (v, s) := s.charge cost; (v, .slice s)

end Timeshare
