import PegGen.Compile.Stages
import PegGen.Js.RuleFunction
import PegGen.Js.Template

/-!
# Parser modules

A parser module is one JavaScript file: a header, the class of its errors, a constructor per shape
of expectation, the tracer if it can be traced, and the parse function.  Inside the parse function
stand the table of start rules, a constant per expectation of the pool, the state of the parse, the
functions it needs and a function per rule.  How the module is wrapped and what it exports depends
on its format.
-/

namespace PegGen.Js

open Code (Op)

/-- The default header. -/
def defaultHeader : String :=
  "// Generated by rpeg 0.1.0."

/-- The code of a fixed part. -/
def fixedPart (lines : List String) : Op :=
  .template (Text.joinWith "\n" lines)

/-- The header, as it is given or the default one. -/
def headerOps : Option String → List Op
  | some header => [.template header, .line ""]
  | none => [.line defaultHeader, .line ""]

/-- What stands around the module, in front. -/
def openingOps : Format → List Op
  | .bare => [.opening "(function()"]
  | .globals _ => [.opening "(function(root)"]
  | .commonJs => []
  | .es => []

/-- Strict mode is switched on where it is not the default. -/
def strictOps (format : Format) : List Op :=
  if format = .es then [] else [.line "\"use strict\";", .line ""]

/-- The constructor for a shape of expectation. -/
def constructorOps (kind : Expectation.Kind) : List Op :=
  let fields := expectationFields kind
  let head := (Fragment.mk (expectationConstructor kind.tag)).call fields
  [.opening ("function " ++ head.text),
   .line ("return " ++ objectLiteral (("type: " ++ stringLiteral kind.tag) ::
     fields.map fun field => field ++ ": " ++ field) ++ ";"),
   .close,
   .line ""]

/-- The class of tracers, if the parser can be traced. -/
def tracerOps (trace : Bool) : List Op :=
  if trace then [fixedPart Template.lineTracer, .line ""] else []

/-- The list of start rules. -/
def allowedOps (startRules : List String) : List Op :=
  [.line (constDecl "peg$allowedStartRules" (arrayLiteral (startRules.map stringLiteral))),
   .line ""]

/-- The table of start rules and the one to start from by default. -/
def startTableOps (startRules : List String) (first : String) : List Op :=
  [.line ((Fragment.mk "options").set "options !== undefined ? options : \x7b\x7d"),
   .line "",
   .line (constDecl failureName.text "\x7b\x7d"),
   .line (constDecl "peg$startRuleFunctions" (objectLiteral (startRules.map fun rule =>
     stringLiteral rule ++ ": " ++ (ruleFunctionName rule).text))),
   .line (letDecl "peg$startRuleFunction" (some (ruleFunctionName first).text)),
   .line ""]

/-- The declaration of the constant with a number. -/
def constantOp (n : Nat) (e : Expectation) : Op :=
  .line (constDecl (constantName n).text (expectationDeclaration e))

/-- The constants of the pool. -/
def constantOps (pool : OrderedSet Expectation) : List Op :=
  pool.toList.mapIdx constantOp ++ [.line ""]

/-- The state of a parse. -/
def stateOps (trace : Bool) : List Op :=
  [.line (letDecl positionName.text (some "0")),
   .line (letDecl "peg$posDetailsCache" (some "[\x7b line: 1, column: 1 \x7d]")),
   .line (letDecl "peg$maxFailPos" (some "0")),
   .line (letDecl "peg$maxFailExpected" (some "[]")),
   .line (letDecl silencersName.text (some "0"))] ++
  (if trace then [.line (constDecl tracerName.text "options.tracer ? options.tracer : null")]
    else []) ++
  [.line "",
   .line (letDecl "peg$result" none),
   .line ""]

/-- The choice of another start rule. -/
def startChoiceOps : List Op :=
  [.opening "if (\"startRule\" in options)",
   .opening "if (!(options.startRule in peg$startRuleFunctions))",
   .line ("throw new Error(\"Can't start parsing from rule \\\"\" + options.startRule + " ++
     "\"\\\".\");"),
   .close,
   .line ((Fragment.mk "peg$startRuleFunction").set
     ((Fragment.mk "peg$startRuleFunctions").get "options.startRule").text),
   .close,
   .line ""]

/-- The functions of the rules. -/
def functionOps (trace : Bool) (functions : List RuleFunction) : List Op :=
  functions.flatMap fun f => [.line "", .embed (f.ops trace)]

/-- Run the start rule and look at its result. -/
def entryOps (endConstant : Nat) : List Op :=
  let result : Fragment := ⟨"peg$result"⟩
  let matched := (failureName.notEqual result.text).text
  [.line "",
   .line (result.set ((Fragment.mk "peg$startRuleFunction").call []).text),
   .line "",
   .opening (ifHead (matched ++ " && " ++ (positionName.equal inputName.length.text).text)),
   .line ("return " ++ result.text ++ ";"),
   .close,
   .opening (ifHead (matched ++ " && " ++ positionName.text ++ " < " ++ inputName.length.text)),
   .line (failName.call [(constantName endConstant).text]).stmt,
   .close,
   .line "",
   fixedPart Template.throwFurthest]

/-- What the module exports: each name with what it stands for inside. -/
def exports (trace : Bool) : List (String × String) :=
  [("StartRules", "peg$allowedStartRules"), ("SyntaxError", "peg$SyntaxError"),
   ("parse", "peg$parse")] ++
  (if trace then [("DefaultTracer", "peg$DefaultTracer")] else [])

/-- The exports, and what stands around the module, at the end. -/
def closingOps (format : Format) (trace : Bool) : List Op :=
  let object := objectLiteral ((exports trace).map fun (name, inner) => name ++ ": " ++ inner)
  match format with
  | .bare => [.line ("return " ++ object ++ ";"), .closing "\x7d)()"]
  | .globals name => [.line ((Fragment.mk ("root." ++ name)).set object), .closing "\x7d)(this);"]
  | .commonJs => [.line ((Fragment.mk "module.exports").set object)]
  | .es =>
      [.line ("export " ++ objectLiteral ((exports trace).map fun (name, inner) =>
        inner ++ " as " ++ name) ++ ";")]

/-- A parser module. -/
structure ParserModule where
  /-- The options, with resolved start rules. -/
  options : Options
  /-- The start rule by default. -/
  first : String
  /-- The pool of expectations. -/
  pool : OrderedSet Expectation
  /-- The functions of the rules. -/
  functions : List RuleFunction
  /-- The number of the end of the input in the pool. -/
  endConstant : Nat

namespace ParserModule

/-- The module of a grammar.  There must be a start rule, and all expectations must have been
collected. -/
def generate (options : Options) (g : Grammar) : Except CompileError ParserModule :=
  match options.startRules with
  | [] => .error (.pass "no start rules, options have to be resolved against the grammar first")
  | first :: _ => do
      let functions ← g.rules.mapM (RuleFunction.generate g.pool)
      let endConstant ← constantOf g.pool .endOfInput
      return ⟨options, first, g.pool, functions, endConstant⟩

/-- The code of the parse function. -/
def parseOps (p : ParserModule) : List Op :=
  .opening "function peg$parse(input, options)" ::
    startTableOps p.options.startRules p.first ++ constantOps p.pool ++ stateOps p.options.trace ++
    startChoiceOps ++ [fixedPart Template.helpers] ++ functionOps p.options.trace p.functions ++
    entryOps p.endConstant ++ [.close, .line ""]

/-- The code of the module. -/
def ops (p : ParserModule) : List Op :=
  headerOps p.options.header ++ openingOps p.options.format ++ strictOps p.options.format ++
    [fixedPart Template.syntaxError, .line ""] ++
    Expectation.Kind.all.flatMap constructorOps ++ tracerOps p.options.trace ++
    allowedOps p.options.startRules ++ p.parseOps ++
    closingOps p.options.format p.options.trace

/-- The text of the module. -/
def render (p : ParserModule) : String :=
  Code.render p.ops

end ParserModule

end PegGen.Js

namespace PegGen

open PassT

/-- Write the parser module of the grammar. -/
def generateParser {m : Type → Type} [Monad m] : Pass m := do
  let g ← grammar
  let p ← (Js.ParserModule.generate (← read) g : Except CompileError Js.ParserModule)
  note .debug ("generated " ++ toString g.rules.length ++ " rule functions, " ++
    toString g.pool.size ++ " expectation constants")
  setGrammar { g with code := some p.render }

end PegGen
