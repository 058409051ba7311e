import PegGen.Js.RuleFunction

/-!
# Statements of rule functions

The code of a rule function is a flat list of operations.  The inductive types below are the
expressions, tests and statements that it spells, with one constructor for each form that occurs,
and a routine is a whole function.  This module says how they are written.  What is read back from
code is one of them (`Routine.read?`), and everything that is said about the structure of the code
of a rule is said about what is read.

A string literal is kept as it stands between its quotes, so that what it denotes is up to a reader
of JavaScript.
-/

namespace PegGen.Js

open Code (Op)

/-! ## Expressions, tests and statements -/

/-- A value that is assigned. -/
inductive Expr where
  /-- The current position. -/
  | position
  /-- The current position and a number of units more. -/
  | positionPlus (units : Nat)
  /-- A register. -/
  | register (n : Nat)
  /-- The mark of a failure. -/
  | failure
  /-- A string literal. -/
  | quoted (literal : String)
  /-- The next units of the input. -/
  | slice (units : Nat)
  /-- The next character of the input. -/
  | char
  /-- The array of some registers. -/
  | array (registers : List Nat)
  /-- The result of a rule function. -/
  | invoke (rule : String)
deriving DecidableEq, Repr

/-- A condition. -/
inductive Test where
  /-- The next units of the input are those of a string literal. -/
  | sliceIs (units : Nat) (literal : String)
  /-- The next units of the input, in lower case, are those of a string literal. -/
  | lowerSliceIs (units : Nat) (literal : String)
  /-- The next character is accepted by the class that a constant expects. -/
  | charIn (constant : Nat)
  /-- There is a next character. -/
  | inputLeft
  /-- A register has the mark of a failure. -/
  | failed (register : Nat)
  /-- A register has a value. -/
  | succeeded (register : Nat)
  /-- There is no active silencer. -/
  | unsilenced
  /-- There is a tracer. -/
  | tracing
deriving DecidableEq, Repr

/-- What is assigned to. -/
inductive Target where
  /-- A register. -/
  | register (n : Nat)
  /-- The current position. -/
  | position
deriving DecidableEq, Repr

/-- A statement. -/
inductive Stmt where
  /-- An empty line. -/
  | blank
  /-- Assign a value. -/
  | assign (target : Target) (value : Expr)
  /-- Move the position by one unit. -/
  | advance
  /-- Add a silencer. -/
  | silence
  /-- Take a silencer away. -/
  | unsilence
  /-- Take note of a failure, by the constant of its expectation. -/
  | fail (constant : Nat)
  /-- Remember the position as the one where the rule began. -/
  | start
  /-- Tell the tracer of an event of the rule with a name, which is a string literal.  With a match
  comes the result, in the first register. -/
  | trace (kind : EventKind) (literal : String)
  /-- Branch on a condition.  Without statements for the other case there is no branch for it. -/
  | branch (test : Test) (yes no : List Stmt)
deriving Repr

/-- A rule function. -/
structure Routine where
  /-- The rule. -/
  rule : String
  /-- The registers that are declared. -/
  declared : List Nat
  /-- The statements. -/
  body : List Stmt
  /-- The register that is returned in the end. -/
  result : Nat
deriving Repr

/-! ## Writing -/

/-- A string literal, from what stands between its quotes. -/
def quote (literal : String) : String :=
  "\"" ++ literal ++ "\""

/-- A value as it is written. -/
def Expr.render : Expr → String
  | .position => positionName.text
  | .positionPlus units => positionName.text ++ " + " ++ toString units
  | .register n => (registerName n).text
  | .failure => failureName.text
  | .quoted literal => quote literal
  | .slice units => (sliceFragment units).text
  | .char => currentChar.text
  | .array registers => arrayLiteral (registers.map fun n => (registerName n).text)
  | .invoke rule => ((ruleFunctionName rule).call []).text

/-- A condition as it is written. -/
def Test.render : Test → String
  | .sliceIs units literal => ((sliceFragment units).equal (quote literal)).text
  | .lowerSliceIs units literal => ((sliceFragment units).toLowerCase.equal (quote literal)).text
  | .charIn constant =>
      ((Fragment.mk "peg$matchesClass").call [currentChar.text, (constantName constant).text]).text
  | .inputLeft => inputName.length.text ++ " > " ++ positionName.text
  | .failed register => ((registerName register).equal failureName.text).text
  | .succeeded register => (failureName.notEqual (registerName register).text).text
  | .unsilenced => (silencersName.equal "0").text
  | .tracing => (tracerName.notEqual "null").text

/-- What is assigned to, as it is written. -/
def Target.fragment : Target → Fragment
  | .register n => registerName n
  | .position => positionName

namespace Stmt

/-- What is told about an event besides its rule: the result of a match, and where it is. -/
def traceDetails : EventKind → String
  | .enter | .failed => "location: peg$computeLocation(startPos, startPos)"
  | .matched => "result: s0, location: peg$computeLocation(startPos, peg$currPos)"

/-- The statement that tells the tracer of an event. -/
def traceLine (kind : EventKind) (literal : String) : String :=
  "peg$tracer.trace(\x7b type: \"" ++ ((kind.tag ++ "\", rule: \"") ++
    (literal ++ ("\", " ++ traceDetails kind ++ " \x7d);")))

mutual

/-- The code of a statement. -/
def ops : Stmt → List Op
  | .blank => [.line ""]
  | .assign target value => [.line (target.fragment.set value.render)]
  | .advance => [.line positionName.inc.stmt]
  | .silence => [.line silencersName.inc.stmt]
  | .unsilence => [.line silencersName.dec.stmt]
  | .fail constant => [.line (failName.call [(constantName constant).text]).stmt]
  | .start => [.line (constDecl RuleFunction.startName.text positionName.text)]
  | .trace kind literal => [.line (traceLine kind literal)]
  | .branch test yes [] => .opening (ifHead test.render) :: opsAll yes ++ [.close]
  | .branch test yes (s :: no) =>
      .opening (ifHead test.render) :: opsAll yes ++ .otherwise :: (ops s ++ opsAll no) ++ [.close]

/-- The code of several statements. -/
def opsAll : List Stmt → List Op
  | [] => []
  | s :: stmts => ops s ++ opsAll stmts

end

@[simp] theorem opsAll_nil : opsAll [] = [] := rfl

@[simp] theorem opsAll_cons (s : Stmt) (stmts : List Stmt) :
    opsAll (s :: stmts) = ops s ++ opsAll stmts := rfl

@[simp] theorem opsAll_append (stmts stmts' : List Stmt) :
    opsAll (stmts ++ stmts') = opsAll stmts ++ opsAll stmts' := by
  induction stmts with
  | nil => rfl
  | cons s stmts ih => rw [List.cons_append, opsAll_cons, ih, opsAll_cons, List.append_assoc]

end Stmt

namespace Routine

/-- The code inside the function. -/
def bodyOps (r : Routine) : List Op :=
  Stmt.opsAll r.body ++ [.line ("return " ++ (registerName r.result).text ++ ";")]

/-- The code of the function. -/
def ops (r : Routine) : List Op :=
  [.opening ("function " ++ (ruleFunctionName r.rule).text ++ "()"),
   .line (letDecl (Text.joinWith ", " (r.declared.map fun n => (registerName n).text)) none),
   .line "",
   .embed r.bodyOps,
   .close]

end Routine

end PegGen.Js
