import PegGen.Expectation.Basic
import PegGen.Text.Lines
import PegGen.Text.Units

/-!
# Describing expectations

The words an expectation goes by in an error message.  Literals and classes are written in grammar
notation, with escapes for the characters that have a meaning there and for control characters.
A list of expectations is described as the set of its descriptions, in alphabetical order, joined
the way a person writes a list.
-/

namespace PegGen

namespace Text

/-- The character is a control character: below `0x20` or from `0x7F` to `0x9F`. -/
def isControl (c : Char) : Bool :=
  c.toNat ≤ 0x1F || (0x7F ≤ c.toNat && c.toNat ≤ 0x9F)

/-- A character with control characters escaped: four by name, the others by number. -/
def escapeControl (c : Char) : List Char :=
  if c = '\x00' then ['\\', '0']
  else if c = '\t' then ['\\', 't']
  else if c = '\n' then ['\\', 'n']
  else if c = '\r' then ['\\', 'r']
  else if isControl c then '\\' :: 'x' :: hex 2 c.toNat
  else [c]

/-- A character with a backslash in front of it if it is one of `special`. -/
def escapeWith (special : List Char) (c : Char) : List Char :=
  if c ∈ special then ['\\', c] else escapeControl c

/-- A character as it stands between double quotes. -/
def escapeInLiteral (c : Char) : List Char :=
  escapeWith ['\\', '"'] c

/-- A character as it stands between the brackets of a class. -/
def escapeInClass (c : Char) : List Char :=
  escapeWith ['\\', ']', '^', '-'] c

/-- A text as it stands between double quotes. -/
def literalEscape (text : String) : String :=
  String.ofList (text.toList.flatMap escapeInLiteral)

/-- A text as it stands between the brackets of a class. -/
def classEscape (text : String) : String :=
  String.ofList (text.toList.flatMap escapeInClass)

/-- A text between double quotes. -/
def quoted (text : String) : String :=
  "\"" ++ literalEscape text ++ "\""

end Text

/-- A part of a class in grammar notation. -/
def ClassPart.describe : ClassPart → String
  | .char c => Text.classEscape (String.singleton c)
  | .range lo hi =>
      Text.classEscape (String.singleton lo) ++ "-" ++ Text.classEscape (String.singleton hi)

/-- A class in grammar notation. -/
def CharClass.describe (k : CharClass) : String :=
  "[" ++ (if k.inverted then "^" else "") ++ Text.joinWith "" (k.parts.map ClassPart.describe)
    ++ "]"

namespace Expectation

/-- What is written after "Expected" in an error message. -/
def describe : Expectation → String
  | .literal text _ => Text.quoted text
  | .charClass k => k.describe
  | .any => "any character"
  | .endOfInput => "end of input"
  | .other description => description

/-- Texts joined the way a person writes a list of alternatives. -/
def alternatives : List String → String
  | [] => "nothing"
  | [a] => a
  | [a, b] => a ++ " or " ++ b
  | a :: b :: c :: rest =>
      Text.joinWith ", " (a :: b :: (c :: rest).dropLast) ++ ", or " ++
        (c :: rest).getLast (List.cons_ne_nil c rest)

/-- The descriptions of a list of expectations, in alphabetical order, each once. -/
def descriptions (expected : List Expectation) : List String :=
  ((expected.map describe).mergeSort fun a b => decide (a ≤ b)).eraseReps

/-- The descriptions of a list of expectations, as one phrase. -/
def describeAll (expected : List Expectation) : String :=
  alternatives (descriptions expected)

/-- What stands at the place of the failure, as a phrase. -/
def describeFound : Option String → String
  | some text => Text.quoted text
  | none => "end of input"

end Expectation

/-! ## Tests -/

example : (Expectation.literal "a\"b\n" false).describe = "\"a\\\"b\\n\"" := by decide
example : (CharClass.mk [.range 'a' 'z', .char '-', .char ']'] true false).describe =
    "[^a-z\\-\\]]" := by decide
example : Expectation.alternatives ["a", "b", "c"] = "a, b, or c" := by decide

end PegGen
