import PegGen.Compile.Session
import PegGen.Grammar.Basic

/-!
# Compiler options

What a caller can choose: the rules from which the parser may start, whether it can be traced, the
kind of module that comes out, and the text at its top.  Passes see the options resolved against the
grammar, in which the start rules are rules of the grammar and there is at least one.
-/

namespace PegGen

/-- The kind of JavaScript module that comes out. -/
inductive Format where
  /-- An expression that gives the parser. -/
  | bare
  /-- A module that assigns to `module.exports`. -/
  | commonJs
  /-- A module with an `export` clause. -/
  | es
  /-- A script that assigns to a property of the global object. -/
  | globals (name : String)
deriving DecidableEq, Repr, Inhabited

/-- What a caller can choose. -/
structure Options where
  /-- The rules to start from.  No rule stands for the first one, `*` for all of them. -/
  startRules : List String := []
  /-- The parser can be traced. -/
  trace : Bool := false
  /-- The kind of module. -/
  format : Format := .bare
  /-- The text at the top of the module, by default a note on its origin. -/
  header : Option String := none
deriving DecidableEq, Repr, Inhabited

namespace Options

/-- The start rules that a list stands for, in a grammar with these rules. -/
def resolveStartRules (names : List String) (first : String) (startRules : List String) :
    Except CompileError (List String) :=
  if startRules = [] then .ok [first]
  else if "*" ∈ startRules then .ok names
  else
    match startRules.find? (· ∉ names) with
    | some name => .error (.unknownStartRule name)
    | none => .ok startRules

/-- The options with the start rules that they stand for in a grammar. -/
def resolve (o : Options) (g : Grammar) : Except CompileError Options :=
  match g.ruleNames with
  | [] => .error .emptyGrammar
  | first :: _ =>
      (resolveStartRules g.ruleNames first o.startRules).map fun startRules =>
        { o with startRules := startRules }

end Options

end PegGen
