/-!
# Log records

Parsing and compiling note what they do as log records.  A record goes to the end of the log of
the state it was made in, so a log is in order of time.
-/

namespace PegGen

/-- How important a record is. -/
inductive LogLevel where
  | error | warn | info | debug | trace
deriving DecidableEq, Repr, Inhabited

/-- One line of a log. -/
structure LogRecord where
  /-- How important it is. -/
  level : LogLevel
  /-- What it says. -/
  message : String
deriving DecidableEq, Repr, Inhabited

end PegGen
