import PegGen.Text.Lines

/-!
# Fragments

A fragment is a name or an expression of JavaScript, as text.  Fragments are put together to larger
ones and to statements.  Nothing checks that the text makes sense, and nothing is put in
parentheses: whoever puts expressions together sees to it that an expression comes out.
-/

namespace PegGen.Js

/-- A name or an expression. -/
structure Fragment where
  /-- How it is written. -/
  text : String
deriving DecidableEq, Repr, Inhabited

namespace Fragment

/-- The statement that assigns a value: `name = value;`. -/
def set (f : Fragment) (value : String) : String :=
  f.text ++ " = " ++ value ++ ";"

/-- A call: `name(a, b)`. -/
def call (f : Fragment) (arguments : List String) : Fragment :=
  ⟨f.text ++ "(" ++ Text.joinWith ", " arguments ++ ")"⟩

/-- An element: `name[property]`. -/
def get (f : Fragment) (property : String) : Fragment :=
  ⟨f.text ++ "[" ++ property ++ "]"⟩

/-- A comparison: `name === right`. -/
def equal (f : Fragment) (right : String) : Fragment :=
  ⟨f.text ++ " === " ++ right⟩

/-- A comparison that is written the other way round: `left !== name`. -/
def notEqual (f : Fragment) (left : String) : Fragment :=
  ⟨left ++ " !== " ++ f.text⟩

/-- A part of a string: `name.substr(start, length)`. -/
def substr (f : Fragment) (start length : String) : Fragment :=
  ⟨f.text ++ ".substr(" ++ start ++ ", " ++ length ++ ")"⟩

/-- A string in lower case: `name.toLowerCase()`. -/
def toLowerCase (f : Fragment) : Fragment :=
  ⟨f.text ++ ".toLowerCase()"⟩

/-- An increment: `name++`. -/
def inc (f : Fragment) : Fragment :=
  ⟨f.text ++ "++"⟩

/-- A decrement: `name--`. -/
def dec (f : Fragment) : Fragment :=
  ⟨f.text ++ "--"⟩

/-- A length: `name.length`. -/
def length (f : Fragment) : Fragment :=
  ⟨f.text ++ ".length"⟩

/-- The expression as a statement. -/
def stmt (f : Fragment) : String :=
  f.text ++ ";"

end Fragment

/-- The declaration of a variable: `let name;` or `let name = init;`. -/
def letDecl (name : String) : Option String → String
  | some init => "let " ++ name ++ " = " ++ init ++ ";"
  | none => "let " ++ name ++ ";"

/-- The declaration of a constant: `const name = init;`. -/
def constDecl (name init : String) : String :=
  "const " ++ name ++ " = " ++ init ++ ";"

/-! ## Tests -/

example : (((Fragment.mk "x").get "y").equal "1").text = "x[y] === 1" := by decide
example : ((Fragment.mk "x").notEqual "0").text = "0 !== x" := by decide

end PegGen.Js
