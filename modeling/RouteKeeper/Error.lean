import RouteKeeper.Address.Text

/-!
# What can go wrong

Errors are causes; their wording is one function. A cause is transient if trying again later may
succeed without anybody changing anything.
-/
namespace RouteKeeper

/-- Causes in probing. -/
inductive ProbeError where
  | socketUnavailable (family : Family) (reason : String)
  | sendFailed (address : Address) (reason : String)
  | receiveFailed (reason : String)
  | malformed (reason : String)
  | payloadTooSmall (size least : Nat)
deriving DecidableEq

/-- Causes in changing or reading the route table. -/
inductive RouteError where
  | addFailed (destination interface reason : String)
  | deleteFailed (destination interface reason : String)
  | replaceFailed (destination interface reason : String)
  | externalConflict (destination interface : String)
  | lookupFailed (reason : String)
  | unsupported
deriving DecidableEq

/-- All causes. -/
inductive Error where
  | probe (cause : ProbeError)
  | route (cause : RouteError)
  | config (reason : String)
  | invalidConfig (reason : String)
  | io (reason : String)
deriving DecidableEq

def ProbeError.message : ProbeError → String
  | socketUnavailable family reason => s!"failed to open {family.name} ICMP socket: {reason}"
  | sendFailed address reason => s!"send to {address.text} failed: {reason}"
  | receiveFailed reason => s!"receive failed: {reason}"
  | malformed reason => s!"malformed ICMP message: {reason}"
  | payloadTooSmall size least => s!"payload too small: {size} bytes (min {least})"

def RouteError.message : RouteError → String
  | addFailed destination interface reason =>
    s!"failed to add route {destination} dev {interface}: {reason}"
  | deleteFailed destination interface reason =>
    s!"failed to delete route {destination} dev {interface}: {reason}"
  | replaceFailed destination interface reason =>
    s!"failed to replace route {destination} dev {interface}: {reason}"
  | externalConflict destination interface =>
    s!"route {destination} is owned by foreign interface {interface}"
  | lookupFailed reason => s!"route lookup failed: {reason}"
  | unsupported => "route management not supported on this platform"

namespace Error

/-- The wording of an error. -/
def message : Error → String
  | probe cause => s!"probe error: {cause.message}"
  | route cause => s!"route error: {cause.message}"
  | config reason => s!"configuration error: {reason}"
  | invalidConfig reason => s!"invalid configuration: {reason}"
  | io reason => s!"IO error: {reason}"

/-- Trying again later may succeed. -/
def isTransient : Error → Bool
  | io _ => true
  | probe (.sendFailed ..) | probe (.receiveFailed _) | probe (.malformed _) => true
  | route (.addFailed ..) | route (.deleteFailed ..) | route (.replaceFailed ..)
  | route (.lookupFailed _) => true
  | _ => false

/-- A route belongs to an interface that is not ours. -/
def isExternalConflict : Error → Bool
  | route (.externalConflict ..) => true
  | _ => false

theorem not_isTransient_of_isExternalConflict {e : Error} (h : e.isExternalConflict = true) :
    e.isTransient = false := by
  unfold isExternalConflict at h
  split at h <;> simp_all [isTransient]

end Error

end RouteKeeper
