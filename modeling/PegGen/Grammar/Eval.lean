import PegGen.Grammar.Basic
import PegGen.Parse.Action

/-!
# Evaluating grammars

A grammar is a parser: every expression is a parse action.  A leaf consumes its expectation, a
reference invokes a rule, a sequence gives the values of its items and goes back to where it began
if one of them fails, and a choice gives the value of its first item that has one.

A value is a tree with the matched texts at its leaves.

Rules may refer to each other in circles, so evaluation takes fuel, one unit per rule invocation in
progress.  `Grammar.fuelFor` is enough for every parse that ends without the help of a tracer
(`Grammar.endsWith_iff_fuelFor`): a rule that is invoked at an offset while it is being evaluated at
that offset begins the same evaluation again.
-/

namespace PegGen

/-- The value of a parse. -/
inductive Tree where
  /-- A matched text. -/
  | leaf (text : String)
  /-- The values of the items of a sequence. -/
  | node (children : List Tree)
deriving Inhabited, Repr

namespace Tree

mutual

/-- The texts at the leaves, from left to right. -/
def leaves : Tree → List String
  | .leaf text => [text]
  | .node children => leavesAll children

/-- The texts at the leaves of several trees, from left to right. -/
def leavesAll : List Tree → List String
  | [] => []
  | t :: ts => leaves t ++ leavesAll ts

end

end Tree

namespace Expression

variable {τ : Type}

mutual

/-- The parse action of an expression, where `call` invokes a rule. -/
def eval (call : String → ParseM τ (Option Tree)) : Expression → ParseM τ (Option Tree)
  | .literal value ignoreCase =>
      return (← ParseT.consume (.literal value ignoreCase)).map Tree.leaf
  | .charClass k => return (← ParseT.consume (.charClass k)).map Tree.leaf
  | .any => return (← ParseT.consume .any).map Tree.leaf
  | .ref name _ => call name
  | .seq items => do
      let start ← ParseT.pos
      match ← evalAll call items with
      | some values => return some (.node values)
      | none =>
          ParseT.seek start
          return none
  | .choice items => evalFirst call items
  | .named name body => ParseT.named name (eval call body)

/-- The values of all items, one after the other. -/
def evalAll (call : String → ParseM τ (Option Tree)) :
    List Expression → ParseM τ (Option (List Tree))
  | [] => return some []
  | e :: es => do
      match ← eval call e with
      | none => return none
      | some value => return (← evalAll call es).map (value :: ·)

/-- The value of the first item that has one. -/
def evalFirst (call : String → ParseM τ (Option Tree)) :
    List Expression → ParseM τ (Option Tree)
  | [] => return none
  | e :: es => do
      match ← eval call e with
      | some value => return some value
      | none => evalFirst call es

end

end Expression

namespace Grammar

variable {τ : Type}

/-- Invoke a rule by name.  A name without a rule fails without further ado. -/
def evalRule [Tracer τ Tree] (g : Grammar) : Nat → String → ParseM τ (Option Tree)
  | 0, _ => throw .outOfFuel
  | fuel + 1, name =>
      match g.rule? name with
      | none => return none
      | some r => ParseT.rule name (r.expression.eval (g.evalRule fuel))

/-- Invoke a rule and finish the parse with its value. -/
def parseRule [Tracer τ Tree] (g : Grammar) (fuel : Nat) (name : String) :
    ParseM τ (Except SyntaxError Tree) := do
  ParseT.finish (← g.evalRule fuel name)

/-- Fuel for every parse of the input that ends, if no tracer ends it. -/
def fuelFor (g : Grammar) (input : String) : Nat :=
  g.rules.length * (input.toList.length + 1) + 1

/-- Parse an input from a start rule, by default the first of the allowed ones.  There is no result
if the parse does not end with its fuel. -/
def parse [Tracer τ Tree] (g : Grammar) (allowed : List String) (start : Option String)
    (input : String) (tracer : Option τ) : Option (Except ParseError Tree) × State τ :=
  match resolveStart allowed start with
  | .error e => (some (.error e), State.init input tracer)
  | .ok name =>
      let (result, s) := (g.parseRule (g.fuelFor input) name).runFrom (State.init input tracer)
      match result with
      | .ok (.ok value) => (some (.ok value), s)
      | .ok (.error e) => (some (.error (.mismatch e)), s)
      | .error (.refused e) => (some (.error (.refused e)), s)
      | .error _ => (none, s)

end Grammar

end PegGen
