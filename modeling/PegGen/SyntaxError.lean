import PegGen.Expectation.Describe
import PegGen.Position

/-!
# Syntax errors

A syntax error says where an input failed to match, what would have matched there and what was
found instead.  `SyntaxError.format` shows the line of the input at which it happened, with carets
under the part that failed.
-/

namespace PegGen

/-- An input that does not match. -/
structure SyntaxError where
  /-- The error in words. -/
  message : String
  /-- What would have matched. -/
  expected : List Expectation
  /-- What was there, nothing at the end of the input. -/
  found : Option String
  /-- Where it was. -/
  location : Location
deriving DecidableEq, Repr

namespace SyntaxError

/-- The words for what was expected and what was found. -/
def describe (expected : List Expectation) (found : Option String) : String :=
  "Expected " ++ Expectation.describeAll expected ++ " but " ++ Expectation.describeFound found ++
    " found."

/-- The error for what was expected and found at a location. -/
def ofFailure (expected : List Expectation) (found : Option String) (location : Location) :
    SyntaxError :=
  ⟨describe expected found, expected, found, location⟩

/-- The error on one line. -/
def render (e : SyntaxError) : String :=
  e.message ++ " at " ++ e.location.start.render

/-- The number of carets under the part of `line` that failed. -/
def caretCount (location : Location) (line : List Char) : Nat :=
  let last :=
    if location.start.line = location.stop.line then location.stop.column else line.length + 1
  max (last - location.start.column) 1

/-- The line of the input that is shown, with its number in a margin and carets below. -/
def excerpt (location : Location) (line : List Char) : String :=
  let number := toString location.start.line
  let margin := Text.repeated number.length ' '
  "\n" ++ margin ++ " |\n" ++ number ++ " | " ++ String.ofList line ++ "\n" ++ margin ++ " | " ++
    Text.repeated (location.start.column - 1) ' ' ++ Text.repeated (caretCount location line) '^'

/-- The error with the line at which it happened, for an input that goes by the name `source`.  If
the input has no such line only the name and position are shown. -/
def format (e : SyntaxError) (source input : String) : String :=
  "Error: " ++ e.message ++ "\n --> " ++ source ++ ":" ++ e.location.start.render ++
    match (Text.splitLines input.toList)[e.location.start.line - 1]? with
    | some line => excerpt e.location (Text.dropReturns line)
    | none => ""

end SyntaxError

end PegGen
