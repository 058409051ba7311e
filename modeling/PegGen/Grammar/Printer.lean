import PegGen.Expectation.Describe
import PegGen.Grammar.Basic

/-!
# Printing grammars

Grammars in the notation in which people write them: `start = "a" (b / .)`.  A display name at the
top of a rule stands after the rule's name, and deeper down it is not shown.  An `i` after a literal
or a class means that case is ignored.
-/

namespace PegGen

namespace Expression

/-- The expression is a choice. -/
def isChoice : Expression → Bool
  | .choice _ => true
  | _ => false

/-- The mark after a literal or class that ignores case. -/
def caseMark (ignoreCase : Bool) : String :=
  if ignoreCase then "i" else ""

/-- A text in parentheses. -/
def inParens (s : String) : String :=
  "(" ++ s ++ ")"

mutual

/-- An expression in grammar notation. -/
def render : Expression → String
  | .literal value ignoreCase => Text.quoted value ++ caseMark ignoreCase
  | .charClass k => k.describe ++ caseMark k.ignoreCase
  | .any => "."
  | .ref name _ => name
  | .seq items => Text.joinWith " " (renderItems items)
  | .choice items => Text.joinWith " / " (renderAll items)
  | .named _ body => inParens (render body)

/-- The items of a choice. -/
def renderAll : List Expression → List String
  | [] => []
  | e :: es => render e :: renderAll es

/-- The items of a sequence: a choice among them is put in parentheses. -/
def renderItems : List Expression → List String
  | [] => []
  | e :: es => (if e.isChoice then inParens (render e) else render e) :: renderItems es

end

end Expression

/-- A rule in grammar notation. -/
def Rule.render (r : Rule) : String :=
  match r.expression with
  | .named name body => r.name ++ " " ++ Text.quoted name ++ " = " ++ body.render
  | expression => r.name ++ " = " ++ expression.render

/-- A grammar in grammar notation, a rule on each line. -/
def Grammar.render (g : Grammar) : String :=
  Text.joinWith "" (g.rules.map fun r => r.render ++ "\n")

/-! ## Tests -/

example : Rule.render ⟨"a", .seq [.literal "a" false, .choice [.ref "b" default, .any]], default⟩
    = "a = \"a\" (b / .)" := by decide
example : Rule.render ⟨"b", .named "bee" (.charClass ⟨[.range 'a' 'z'], true, true⟩), default⟩
    = "b \"bee\" = [^a-z]i" := by decide

end PegGen
