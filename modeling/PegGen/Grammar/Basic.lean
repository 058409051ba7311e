import PegGen.Expectation.Basic
import PegGen.Ordered.Set
import PegGen.Position

/-!
# Grammars

A grammar is a list of named rules over a small language of expressions: literals, character
classes, any character, references to rules, sequences, ordered choices and display names.  On its
way through the compiler it also carries the pool of the expectations its parser refers to, and the
finished code.

`Expression.nodes` lists an expression and everything under it, parents first.  Analyses are
written over this list, and `Expression.renameRefs` is the only change made to an expression.
-/

namespace PegGen

/-- What a rule matches. -/
inductive Expression where
  /-- An exact text, or one that differs from it in case only. -/
  | literal (value : String) (ignoreCase : Bool)
  /-- One character of a class. -/
  | charClass (k : CharClass)
  /-- Any one character. -/
  | any
  /-- What another rule matches. -/
  | ref (name : String) (location : Location)
  /-- One item after the other. -/
  | seq (items : List Expression)
  /-- The first item that matches. -/
  | choice (items : List Expression)
  /-- An expression whose failures read as one description. -/
  | named (name : String) (body : Expression)
deriving Inhabited, Repr

/-- A named expression. -/
structure Rule where
  /-- The name that references use. -/
  name : String
  /-- What the rule matches. -/
  expression : Expression
  /-- Where the rule was written. -/
  location : Location := default
deriving Inhabited, Repr

/-- A list of rules, and what the compiler adds to them. -/
structure Grammar where
  /-- The rules, in the order they were written. -/
  rules : List Rule := []
  /-- The expectations that the parser refers to, by their place in the pool. -/
  pool : OrderedSet Expectation := ∅
  /-- The finished parser. -/
  code : Option String := none
deriving Inhabited

namespace Expression

/-- What a failure of the expression itself, not of its parts, expects. -/
def expectation? : Expression → Option Expectation
  | .literal value ignoreCase => some (.literal value ignoreCase)
  | .charClass k => some (.charClass k)
  | .any => some .any
  | .named name _ => some (.other name)
  | .ref .. | .seq _ | .choice _ => none

mutual

/-- The expression and everything under it, parents first. -/
def nodes : Expression → List Expression
  | .seq items => .seq items :: nodesAll items
  | .choice items => .choice items :: nodesAll items
  | .named name body => .named name body :: nodes body
  | .literal value ignoreCase => [.literal value ignoreCase]
  | .charClass k => [.charClass k]
  | .any => [.any]
  | .ref name location => [.ref name location]

/-- The nodes of several expressions, one after the other. -/
def nodesAll : List Expression → List Expression
  | [] => []
  | e :: es => nodes e ++ nodesAll es

end

mutual

/-- The expression with every name in a reference replaced. -/
def renameRefs (f : String → String) : Expression → Expression
  | .ref name location => .ref (f name) location
  | .seq items => .seq (renameRefsAll f items)
  | .choice items => .choice (renameRefsAll f items)
  | .named name body => .named name (renameRefs f body)
  | .literal value ignoreCase => .literal value ignoreCase
  | .charClass k => .charClass k
  | .any => .any

/-- Several expressions with every name in a reference replaced. -/
def renameRefsAll (f : String → String) : List Expression → List Expression
  | [] => []
  | e :: es => renameRefs f e :: renameRefsAll f es

end

theorem nodesAll_eq_flatMap (es : List Expression) : nodesAll es = es.flatMap nodes := by
  induction es with
  | nil => rfl
  | cons e es ih => rw [nodesAll, ih, List.flatMap_cons]

theorem mem_nodesAll {es : List Expression} {node : Expression} :
    node ∈ nodesAll es ↔ ∃ e ∈ es, node ∈ e.nodes := by
  rw [nodesAll_eq_flatMap, List.mem_flatMap]

theorem renameRefsAll_eq_map (f : String → String) (es : List Expression) :
    renameRefsAll f es = es.map (renameRefs f) := by
  induction es with
  | nil => rfl
  | cons e es ih => rw [renameRefsAll, ih, List.map_cons]

/-- The name and location of a reference. -/
def ref? : Expression → Option (String × Location)
  | .ref name location => some (name, location)
  | _ => none

/-- The references in the expression, in pre-order. -/
def refs (e : Expression) : List (String × Location) :=
  e.nodes.filterMap ref?

/-- The expectations of the expression and its parts, in pre-order. -/
def expectations (e : Expression) : List Expectation :=
  e.nodes.filterMap expectation?

@[simp] theorem expectations_literal (value : String) (ignoreCase : Bool) :
    (literal value ignoreCase).expectations = [.literal value ignoreCase] := rfl

@[simp] theorem expectations_charClass (k : CharClass) :
    (charClass k).expectations = [.charClass k] := rfl

@[simp] theorem expectations_any : any.expectations = [.any] := rfl

@[simp] theorem expectations_ref (name : String) (location : Location) :
    (ref name location).expectations = [] := rfl

@[simp] theorem expectations_seq (items : List Expression) :
    (seq items).expectations = items.flatMap expectations := by
  show List.filterMap expectation? (nodesAll items) = _
  rw [nodesAll_eq_flatMap, List.filterMap_flatMap]
  rfl

@[simp] theorem expectations_choice (items : List Expression) :
    (choice items).expectations = items.flatMap expectations := by
  show List.filterMap expectation? (nodesAll items) = _
  rw [nodesAll_eq_flatMap, List.filterMap_flatMap]
  rfl

@[simp] theorem expectations_named (name : String) (body : Expression) :
    (named name body).expectations = .other name :: body.expectations := rfl

end Expression

/-- The rule with every name in a reference replaced.  Its own name stays. -/
def Rule.renameRefs (f : String → String) (r : Rule) : Rule :=
  { r with expression := r.expression.renameRefs f }

namespace Grammar

/-- The first rule with a given name. -/
def rule? (g : Grammar) (name : String) : Option Rule :=
  g.rules.find? (·.name = name)

/-- The names of the rules, in order. -/
def ruleNames (g : Grammar) : List String :=
  g.rules.map (·.name)

/-- The nodes of all rules, in order. -/
def nodes (g : Grammar) : List Expression :=
  g.rules.flatMap (·.expression.nodes)

/-- The grammar with every name in a reference replaced. -/
def renameRefs (f : String → String) (g : Grammar) : Grammar :=
  { g with rules := g.rules.map (Rule.renameRefs f) }

end Grammar

end PegGen
