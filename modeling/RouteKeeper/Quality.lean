import RouteKeeper.Reason
import RouteKeeper.Window

/-!
# The quality of a path

A snapshot of what a window says about a path, graded in words.
-/
namespace RouteKeeper

/-- What is known of a path's quality. -/
structure Quality where
  latency : Duration
  loss : Double
  /-- Every slot of the window has an answer time. -/
  complete : Bool
  rounds : Nat

namespace Quality

/-- The quality of a path that was never probed. -/
def unknown : Quality := ⟨.zero, .zero, false, 0⟩

/-- The quality that a window shows. -/
def ofWindow (w : Window) : Quality := ⟨w.latency, w.loss.share, !w.incomplete, w.recorded⟩

/-- More than a tenth of the rounds is lost, or answers take longer than a second. -/
def hasIssues (q : Quality) : Bool := q.loss.toFloat > 0.1 || q.latency.nanos > 1000000000

/-- The grade. -/
def status (q : Quality) : String :=
  if q.rounds = 0 then "unknown"
  else if q.loss.toFloat ≥ 1.0 then "down"
  else if q.hasIssues then "degraded"
  else if !q.complete then "warming"
  else "good"

/-- Latency, loss and grade in one line. -/
def summary (q : Quality) : String :=
  s!"latency={Reason.milliseconds q.latency} loss={Reason.percent q.loss} status={q.status}"

end Quality

end RouteKeeper
