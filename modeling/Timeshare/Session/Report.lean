import Timeshare.Json.Codec
import Timeshare.Session.Control

namespace Timeshare

/-!
# Reports

What is shown of a run: a summary for people, or all of it together with a snapshot of the
kernel in JSON.
-/

/-- A run and the kernel after it. -/
structure Report where
  summary : Summary
  snapshot : Snapshot

namespace Report

/-- Reports on a run.  It fails if the kernel was damaged. -/
def capture (k : Kernel) (summary : Summary) : Attempt Report := do
  return ⟨summary, ← k.snapshot⟩

/-- Writes a report. -/
def toJson (r : Report) : Json :=
  .object [("summary", r.summary.toJson), ("snapshot", r.snapshot.toJson)]

end Report

/-- The lines of a summary that tell what a process has put out. -/
def Summary.processLine (s : Summary) (pid : Word) : String :=
  let output := s.outputOf pid
  if output.isEmpty then s!"  pid {pid}" else s!"  pid {pid} output {Text.quote output}"

/-- A summary for people, as lines. -/
def Summary.lines (s : Summary) (clock : UInt64) : List String :=
  ["HYPO run summary", "================"]
    ++ s.created.map s.processLine
    ++ s.faulted.map (fun (pid, fault) => s!"  fault pid {pid}: {fault.message}")
    ++ (if s.failedEvents = 0 then [] else [s!"  warning {s.failedEvents} events failed"])
    ++ [s!"{s.cycles} cycles ({s.idleCycles} idle), clock {clock}, "
      ++ s!"{s.terminated.length} terminated"]

end Timeshare
