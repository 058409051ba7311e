import PegGen.Expectation.Basic
import PegGen.Text.Lines
import PegGen.Text.Units

/-!
# JavaScript literals

Texts and expectations as JavaScript source.  A string literal is written in printable ASCII only,
so that it survives any encoding of the file: everything else is an escape, and a character outside
the basic plane is the pair of escapes for its two UTF-16 units.

An expectation is declared by a call of the constructor for its shape, with its fields as arguments.
-/

namespace PegGen.Js

/-- A unit as a four-digit escape. -/
def unitEscape (n : Nat) : List Char :=
  '\\' :: 'u' :: Text.hex 4 n

/-- A character as it stands in a double-quoted string literal. -/
def escapeChar (c : Char) : List Char :=
  if c = '\\' then ['\\', '\\']
  else if c = '"' then ['\\', '"']
  else if c = '\x00' then ['\\', '0']
  else if c = '\x08' then ['\\', 'b']
  else if c = '\t' then ['\\', 't']
  else if c = '\n' then ['\\', 'n']
  else if c = '\x0b' then ['\\', 'v']
  else if c = '\x0c' then ['\\', 'f']
  else if c = '\r' then ['\\', 'r']
  else if 0x20 ≤ c.toNat && c.toNat ≤ 0x7E then [c]
  else if c.toNat ≤ 0xFF then '\\' :: 'x' :: Text.hex 2 c.toNat
  else (Text.charUnits c).flatMap unitEscape

/-- A text as it stands in a double-quoted string literal. -/
def stringEscape (text : String) : String :=
  String.ofList (text.toList.flatMap escapeChar)

/-- The string literal of a text. -/
def stringLiteral (text : String) : String :=
  "\"" ++ stringEscape text ++ "\""

/-- The literal of a truth value. -/
def boolLiteral (b : Bool) : String :=
  if b then "true" else "false"

/-- The array literal of some elements. -/
def arrayLiteral (elements : List String) : String :=
  "[" ++ Text.joinWith ", " elements ++ "]"

/-- A part of a class: a character, or a pair of characters for a range. -/
def classPart : ClassPart → String
  | .char c => stringLiteral (String.singleton c)
  | .range lo hi =>
      arrayLiteral [stringLiteral (String.singleton lo), stringLiteral (String.singleton hi)]

/-- The name of the constructor for the expectations with a given tag. -/
def expectationConstructor (tag : String) : String :=
  "peg$" ++ tag ++ "Expectation"

/-- The arguments from which an expectation is constructed. -/
def expectationArguments : Expectation → List String
  | .literal text ignoreCase => [stringLiteral text, boolLiteral ignoreCase]
  | .charClass k =>
      [arrayLiteral (k.parts.map classPart), boolLiteral k.inverted, boolLiteral k.ignoreCase]
  | .any => []
  | .endOfInput => []
  | .other description => [stringLiteral description]

/-- The expression that constructs an expectation. -/
def expectationDeclaration (e : Expectation) : String :=
  expectationConstructor e.tag ++ "(" ++ Text.joinWith ", " (expectationArguments e) ++ ")"

/-- The parameters of the constructor for a shape of expectation. -/
def expectationFields : Expectation.Kind → List String
  | .literal => ["text", "ignoreCase"]
  | .charClass => ["parts", "inverted", "ignoreCase"]
  | .any => []
  | .endOfInput => []
  | .other => ["description"]

/-! ## Tests -/

example : stringEscape "a\"b\\c\n" = "a\\\"b\\\\c\\n" := by decide
example : stringEscape "\x07éλ😀" = "\\x07\\xE9\\u03BB\\uD83D\\uDE00" := by decide
example : expectationDeclaration (.charClass ⟨[.range '0' '9', .char '_'], true, false⟩) =
    "peg$classExpectation([[\"0\", \"9\"], \"_\"], true, false)" := by decide

end PegGen.Js
