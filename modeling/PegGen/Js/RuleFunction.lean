import PegGen.Compile.Session
import PegGen.Grammar.Basic
import PegGen.Expectation.Describe
import PegGen.Js.Names
import PegGen.Text.Case
import PegGen.Trace.Event

/-!
# Rule functions

The code for a rule.  The code of an expression leaves its value, or the mark of a failure, in a
target register, and the position is back where it was on failure.

* A leaf tests the input, and takes what it matches or reports its expectation.
* A sequence saves the position, and puts the results of its items in registers of their own.
* A choice tries its alternatives with the same target until one succeeds.
* A display name silences the failures inside and reports one of its own.

A failure is reported by the number of its expectation in the pool, so all expectations must have
been collected before.

The code is flat.  The items of a sequence and the alternatives of a choice open one block after the
other, and all of them are closed together at the end.
-/

namespace PegGen.Js

open Code (Op)

/-- Generation counts the registers of a rule, and fails on an expectation outside the pool. -/
abbrev GenM : Type → Type :=
  StateT Nat (Except CompileError)

/-- A register that was not used before. -/
def freshRegister : GenM Nat := do
  let n ← get
  set (n + 1)
  return n

/-- The error for an expectation outside the pool. -/
def uncollected (e : Expectation) : CompileError :=
  .pass ("expectation " ++ e.describe ++
    " was never collected (collect_expectations has to run before generate_js)")

/-- The number of an expectation in the pool. -/
def constantOf (pool : OrderedSet Expectation) (e : Expectation) : Except CompileError Nat :=
  match pool.indexOf? e with
  | some n => .ok n
  | none => .error (uncollected e)

/-- Report a failure unless failures are silenced. -/
def failOps (pool : OrderedSet Expectation) (e : Expectation) : GenM (List Op) := do
  let constant ← constantOf pool e
  return [.opening (ifHead (silencersName.equal "0").text),
    .line (failName.call [(constantName constant).text]).stmt,
    .close]

/-- The other case of a leaf whose block was opened already.  This closes that block. -/
def orFailOps (pool : OrderedSet Expectation) (target : Nat) (e : Expectation) :
    GenM (List Op) := do
  let reported ← failOps pool e
  return .otherwise :: .line ((registerName target).set failureName.text) ::
    (reported ++ [.close])

/-- The other case of an item of a sequence: go back to the saved position and fail.  This closes
the block that was opened behind the item. -/
def giveUpOps (target saved : Nat) : List Op :=
  [.otherwise, .line (positionName.set (registerName saved).text),
    .line ((registerName target).set failureName.text), .close]

mutual

/-- The code of an expression with a target register. -/
def expressionOps (pool : OrderedSet Expectation) (target : Nat) : Expression → GenM (List Op)
  | .literal value ignoreCase => do
      let units := (Text.units value.toList).length
      let slice := sliceFragment units
      let (test, matched) :=
        if ignoreCase then
          (slice.toLowerCase.equal (stringLiteral (String.ofList (Text.lower value.toList))),
            slice.text)
        else (slice.equal (stringLiteral value), stringLiteral value)
      let rest ← orFailOps pool target (.literal value ignoreCase)
      return .opening (ifHead test.text) :: .line ((registerName target).set matched) ::
        .line (positionName.set (positionName.text ++ " + " ++ toString units)) :: rest
  | .charClass k => do
      let constant ← constantOf pool (.charClass k)
      let test := (Fragment.mk "peg$matchesClass").call
        [currentChar.text, (constantName constant).text]
      let rest ← orFailOps pool target (.charClass k)
      return .opening (ifHead test.text) :: .line ((registerName target).set currentChar.text) ::
        .line positionName.inc.stmt :: rest
  | .any => do
      let test := inputName.length.text ++ " > " ++ positionName.text
      let rest ← orFailOps pool target .any
      return .opening (ifHead test) :: .line ((registerName target).set currentChar.text) ::
        .line positionName.inc.stmt :: rest
  | .ref name _ =>
      return [.line ((registerName target).set ((ruleFunctionName name).call []).text)]
  | .seq [] => return [.line ((registerName target).set (arrayLiteral []))]
  | .seq (e :: es) => do
      let saved ← freshRegister
      let (opened, results) ← itemsOps pool (e :: es)
      return .line ((registerName saved).set positionName.text) ::
        (opened ++ .line ((registerName target).set (arrayLiteral results)) ::
          (e :: es).flatMap fun _ => giveUpOps target saved)
  | .choice [] => return [.line ((registerName target).set failureName.text)]
  | .choice (e :: es) => do
      let first ← expressionOps pool target e
      let rest ← alternativesOps pool target es
      return first ++ (rest ++ es.map fun _ => .close)
  | .named name body => do
      let code ← expressionOps pool target body
      let reported ← failOps pool (.other name)
      return .line silencersName.inc.stmt :: (code ++ .line silencersName.dec.stmt ::
        .opening (ifHead ((registerName target).equal failureName.text).text) ::
          (reported ++ [.close]))

/-- The code of the items of a sequence, and the registers with their results.  Behind each item a
block is opened, for the case that it has a value. -/
def itemsOps (pool : OrderedSet Expectation) : List Expression → GenM (List Op × List String)
  | [] => return ([], [])
  | e :: es => do
      let result ← freshRegister
      let code ← expressionOps pool result e
      let (rest, results) ← itemsOps pool es
      return (code ++
        .opening (ifHead (failureName.notEqual (registerName result).text).text) :: rest,
        (registerName result).text :: results)

/-- The code of the alternatives of a choice after the first.  In front of each a block is opened,
for the case that there is no value yet. -/
def alternativesOps (pool : OrderedSet Expectation) (target : Nat) :
    List Expression → GenM (List Op)
  | [] => return []
  | e :: es => do
      let code ← expressionOps pool target e
      let rest ← alternativesOps pool target es
      return .opening (ifHead ((registerName target).equal failureName.text).text) ::
        (code ++ rest)

end

/-- The function of a rule. -/
structure RuleFunction where
  /-- The rule. -/
  rule : String
  /-- The number of registers.  The result is in the first. -/
  registers : Nat
  /-- The code that computes the result. -/
  body : List Op
deriving Repr

namespace RuleFunction

/-- The function of a rule, with the expectations in a pool. -/
def generate (pool : OrderedSet Expectation) (r : Rule) : Except CompileError RuleFunction := do
  let action : GenM (List Op) := do
    let result ← freshRegister
    expressionOps pool result r.expression
  let (body, registers) ← action.run 0
  return ⟨r.name, registers, body⟩

/-! ## Writing -/

/-- Where the rule began. -/
def startName : Fragment := ⟨"startPos"⟩

/-- The statement that tells the tracer of an event. -/
def traceCall (kind : EventKind) (rule : String) (start stop : Fragment)
    (result : Option Fragment) : String :=
  let location := (Fragment.mk "peg$computeLocation").call [start.text, stop.text]
  let fields :=
    ["type: " ++ stringLiteral kind.tag, "rule: " ++ stringLiteral rule] ++
      (result.map fun f => "result: " ++ f.text).toList ++ ["location: " ++ location.text]
  ((Fragment.mk (tracerName.text ++ ".trace")).call [objectLiteral fields]).stmt

/-- The head of what is done only if there is a tracer. -/
def tracingHead : String :=
  ifHead (tracerName.notEqual "null").text

/-- The code in front of a traced rule. -/
def traceEnter (rule : String) : List Op :=
  [.line (constDecl startName.text positionName.text),
   .opening tracingHead,
   .line (traceCall .enter rule startName startName none),
   .close,
   .line ""]

/-- The code after a traced rule. -/
def traceLeave (rule : String) : List Op :=
  [.line "",
   .opening tracingHead,
   .opening (ifHead (failureName.notEqual (registerName 0).text).text),
   .line (traceCall .matched rule startName positionName (some (registerName 0))),
   .otherwise,
   .line (traceCall .failed rule startName startName none),
   .close,
   .close]

/-- The code inside the function. -/
def bodyOps (trace : Bool) (f : RuleFunction) : List Op :=
  (if trace then traceEnter f.rule else []) ++ f.body ++
    (if trace then traceLeave f.rule else []) ++
    [.line ("return " ++ (registerName 0).text ++ ";")]

/-- The names of the registers. -/
def registerNames (f : RuleFunction) : List String :=
  (List.range f.registers).map fun n => (registerName n).text

/-- The code of the function. -/
def ops (trace : Bool) (f : RuleFunction) : List Op :=
  [.opening ("function " ++ (ruleFunctionName f.rule).text ++ "()"),
   .line (letDecl (Text.joinWith ", " f.registerNames) none),
   .line "",
   .embed (f.bodyOps trace),
   .close]

end RuleFunction

end PegGen.Js
