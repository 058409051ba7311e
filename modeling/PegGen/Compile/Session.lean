import PegGen.Log
import PegGen.Position
import PegGen.Text.Lines

/-!
# Compilation sessions

Passes report what they find to a session instead of stopping at the first problem, so that one run
shows everything that is wrong.  A session knows the stage that is running, and every diagnostic
carries the stage in which it was reported.  `Session.failure?` gathers the errors of the current
stage.
-/

namespace PegGen

/-- How bad a diagnostic is. -/
inductive Severity where
  | error | warning | info
deriving DecidableEq, Repr, Inhabited

namespace Severity

/-- The word in front of a diagnostic. -/
def label : Severity → String
  | .error => "ERROR"
  | .warning => "WARNING"
  | .info => "INFO"

/-- The level at which a diagnostic is logged.  Errors come back to the caller, so they are not
logged as such. -/
def logLevel : Severity → LogLevel
  | .error => .debug
  | .warning => .warn
  | .info => .info

end Severity

/-- Something a pass found. -/
structure Diagnostic where
  /-- How bad it is. -/
  severity : Severity
  /-- The stage that reported it. -/
  stage : String
  /-- What it says. -/
  message : String
  /-- Where it is, if it is anywhere. -/
  location : Option Location
deriving DecidableEq, Repr

/-- A diagnostic on one line. -/
def Diagnostic.render (d : Diagnostic) : String :=
  match d.location with
  | some location =>
      "[" ++ d.severity.label ++ "] " ++ location.start.render ++ ": " ++ d.message
  | none => "[" ++ d.severity.label ++ "] " ++ d.message

/-- The errors of a stage. -/
structure StageFailure where
  /-- The stage. -/
  stage : String
  /-- The errors, in the order they were reported. -/
  diagnostics : List Diagnostic
deriving DecidableEq, Repr

/-- The errors of a stage, a line each under a heading. -/
def StageFailure.render (f : StageFailure) : String :=
  "stage " ++ f.stage ++ " failed:" ++
    Text.joinWith "" (f.diagnostics.map fun d => "\n" ++ d.render)

/-- Why a compilation gives no code. -/
inductive CompileError where
  /-- There is no rule, so there is none to start from. -/
  | emptyGrammar
  /-- A start rule that is not a rule of the grammar. -/
  | unknownStartRule (name : String)
  /-- A stage reported errors. -/
  | stage (failure : StageFailure)
  /-- A pass gave up. -/
  | pass (message : String)
  /-- No pass produced code. -/
  | noOutput
deriving DecidableEq, Repr

/-- The error in words. -/
def CompileError.message : CompileError → String
  | .emptyGrammar => "[ERROR] grammar has no rules"
  | .unknownStartRule name => "[ERROR] unknown start rule \"" ++ name ++ "\""
  | .stage failure => failure.render
  | .pass message => "[ERROR] " ++ message
  | .noOutput => "[ERROR] no pass generated any code"

/-- What one compilation has reported so far. -/
structure Session where
  /-- The stage that is running. -/
  stage : String := ""
  /-- The diagnostics, in the order they were reported. -/
  diagnostics : List Diagnostic := []
  /-- What was noted so far. -/
  log : List LogRecord := []
deriving DecidableEq, Repr, Inhabited

namespace Session

/-- Write a line to the log. -/
def note (level : LogLevel) (message : String) (s : Session) : Session :=
  { s with log := s.log ++ [⟨level, message⟩] }

/-- Go on to another stage. -/
def enter (stage : String) (s : Session) : Session :=
  { s with stage := stage }

/-- Report a diagnostic in the current stage. -/
def report (severity : Severity) (message : String) (location : Option Location) (s : Session) :
    Session :=
  let diagnostic : Diagnostic := ⟨severity, s.stage, message, location⟩
  { s.note severity.logLevel diagnostic.render with
    diagnostics := s.diagnostics ++ [diagnostic] }

/-- The errors among the diagnostics. -/
def errors (s : Session) : List Diagnostic :=
  s.diagnostics.filter (·.severity = .error)

/-- The errors of the current stage, if there are any. -/
def failure? (s : Session) : Option StageFailure :=
  let errors := s.errors.filter (·.stage = s.stage)
  if errors = [] then none else some ⟨s.stage, errors⟩

end Session

end PegGen
