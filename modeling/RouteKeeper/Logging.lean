import RouteKeeper.Settings

/-!
# Logging

A filter names the most detailed level that is logged. Logging is set up once for the whole
program; what the environment says comes before the settings.
-/
namespace RouteKeeper

/-- How detailed the log is. -/
inductive LogLevel where
  | off
  | error
  | warn
  | info
  | debug
  | trace
deriving DecidableEq

namespace LogLevel

/-- The levels, each with its number. -/
def all : List LogLevel := [off, error, warn, info, debug, trace]

def name : LogLevel → String
  | off => "off"
  | error => "error"
  | warn => "warn"
  | info => "info"
  | debug => "debug"
  | trace => "trace"

/-- The most detailed level that a filter lets through. A filter is the name of a level, in
letters of either case, or its number; an empty one stands for errors, and any other text names a
part of the program, which is then logged in full. -/
def ofFilter (filter : String) : LogLevel :=
  if filter.isEmpty then error
  else
    let lower := filter.map Char.toLower
    match all.find? fun l => l.name = lower with
    | some l => l
    | none =>
      match filter.toNat? with
      | some n => all[n]?.getD trace
      | none => trace

end LogLevel

/-- Set up logging, given whether it was before and what the environment says. -/
def LoggingSettings.setUp (s : LoggingSettings) (done : Bool) (environment : Option String) :
    Except Error LogLevel :=
  if done then
    .error (.config
      "Failed to init logging: a global default trace dispatcher has already been set")
  else .ok (.ofFilter (environment.getD s.level))

end RouteKeeper
