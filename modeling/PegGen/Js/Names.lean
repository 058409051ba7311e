import PegGen.Js.Code
import PegGen.Js.Fragment
import PegGen.Js.Quoted

/-!
# Names of the generated parser

A generated parser has a function per rule.  Its body works on registers `s0`, `s1`, ..., which hold
values or the mark of a failure, on the position in the input, and on the count of silencers.

Every expression that looks at the input does so at the current position.
-/

namespace PegGen.Js

/-- The input. -/
def inputName : Fragment := ⟨"input"⟩

/-- The current position. -/
def positionName : Fragment := ⟨"peg$currPos"⟩

/-- The mark of a failure. -/
def failureName : Fragment := ⟨"peg$FAILED"⟩

/-- The count of silencers. -/
def silencersName : Fragment := ⟨"peg$silentFails"⟩

/-- The tracer. -/
def tracerName : Fragment := ⟨"peg$tracer"⟩

/-- The function that takes note of a failure. -/
def failName : Fragment := ⟨"peg$fail"⟩

/-- A register. -/
def registerName (n : Nat) : Fragment := ⟨"s" ++ toString n⟩

/-- The function of a rule. -/
def ruleFunctionName (rule : String) : Fragment := ⟨"peg$parse" ++ rule⟩

/-- The constant of an expectation, by its place in the pool. -/
def constantName (n : Nat) : Fragment := ⟨"peg$e" ++ toString n⟩

/-- The character at the current position. -/
def currentChar : Fragment :=
  (Fragment.mk "input.charAt").call [positionName.text]

/-- The next units of the input. -/
def sliceFragment (units : Nat) : Fragment :=
  inputName.substr positionName.text (toString units)

/-! ## Other pieces of code -/

/-- The object literal of some properties. -/
def objectLiteral (properties : List String) : String :=
  "\x7b " ++ Text.joinWith ", " properties ++ " \x7d"

/-- The head of a branch on a condition. -/
def ifHead (condition : String) : String :=
  "if (" ++ condition ++ ")"

end PegGen.Js
