import RouteKeeper.Decimal.Fixed
import RouteKeeper.Double
import RouteKeeper.Duration

/-!
# Why a route was selected

Each selection says how it differs from the one before.
-/
namespace RouteKeeper

/-- What changed with a selection. -/
inductive Reason where
  /-- The same connection as before. -/
  | unchanged
  /-- There was no selection to compare with, or no measure speaks for the new one. -/
  | newRoute
  /-- The share of lost rounds fell. -/
  | lossImproved (old new : Double)
  /-- The round-trip time fell. -/
  | latencyImproved (old new : Duration)
  /-- Nothing is selected; the loss is that of the best path, if there was one. -/
  | deleted (loss : Option Double)
deriving DecidableEq

namespace Reason

def isChange : Reason → Bool
  | unchanged => false
  | _ => true

/-- A share as a percentage with one decimal place. -/
def percent (x : Double) : String := Decimal.oneDecimal (x.toFloat * 100.0) ++ "%"

/-- A duration in milliseconds with one decimal place. -/
def milliseconds (d : Duration) : String := Decimal.oneDecimal d.inMillis ++ "ms"

/-- The reason as a phrase. -/
def text : Reason → String
  | unchanged => "no change"
  | newRoute => "new route"
  | lossImproved old new => s!"loss improved {percent old} -> {percent new}"
  | latencyImproved old new => s!"latency improved {milliseconds old} -> {milliseconds new}"
  | deleted (some loss) => s!"route deleted (loss {percent loss})"
  | deleted none => "route deleted"

end Reason

end RouteKeeper
