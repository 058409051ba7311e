import PegGen.Parse.Action

/-!
# Scripts

A script is a parse written out as data: a list of steps, some of which have a body of steps of
their own.  Running a script performs the parse actions its steps name and reports, for each step
that completes, what it gave and where the state stands.  Steps of a body are reported before the
step that has the body.

A step may be marked `must`: if it finds nothing, the body it stands in ends early, without a
value.  A refusal by the tracer is reported by every step it passes through on its way out.  On the
top level neither ends anything.  A read at a bad offset ends the whole run, and the steps that
were under way are not reported.
-/

namespace PegGen

/-- One step of a script. -/
inductive Step (V : Type) where
  /-- Match an expectation. -/
  | consume (expected : Expectation) (must : Bool)
  /-- Take note of a failure. -/
  | fail (expected : Expectation)
  /-- Go to an offset. -/
  | seek (pos : Nat)
  /-- Ask for the position of an offset. -/
  | position (offset : Nat)
  /-- Ask for the location between two offsets. -/
  | location (start stop : Nat)
  /-- Ask for the input that is left. -/
  | rest
  /-- Ask for the whole input. -/
  | input
  /-- Ask whether there is a tracer. -/
  | isTracing
  /-- Ask for the furthest failure. -/
  | furthest
  /-- Ask for the syntax error at the furthest failure. -/
  | error
  /-- Act as if the tracer had refused an event. -/
  | raise (e : TraceError)
  /-- Run a body without taking note of its failures. -/
  | silenced (body : List (Step V))
  /-- Invoke a rule, whose value is `result` if its body runs to its end. -/
  | rule (name : String) (body : List (Step V)) (result : Option V) (must : Bool)
  /-- Run a body under a description, with the value `result` if it runs to its end. -/
  | named (name : String) (body : List (Step V)) (result : Option V) (must : Bool)
deriving Inhabited

/-- What a step gives. -/
inductive StepResult (V : Type) where
  /-- A step that gives nothing. -/
  | done
  /-- A text, or none. -/
  | text (t : Option String)
  /-- A position. -/
  | position (p : Position)
  /-- A location. -/
  | location (l : Location)
  /-- Yes or no. -/
  | flag (b : Bool)
  /-- A furthest failure. -/
  | furthest (f : Furthest)
  /-- A syntax error. -/
  | failure (e : SyntaxError)
  /-- A value, or none. -/
  | value (v : Option V)
  /-- The error of a tracer. -/
  | refused (e : TraceError)

/-- The result is a text or a value that was not found. -/
def StepResult.isMissing {V : Type} : StepResult V → Bool
  | .text none => true
  | .value none => true
  | _ => false

/-- The report of a step that completed. -/
structure StepReport (V : Type) where
  /-- The step. -/
  step : Step V
  /-- The number of bodies it stands in. -/
  depth : Nat
  /-- What it gave. -/
  result : StepResult V
  /-- The offset after it. -/
  pos : Nat
  /-- The furthest failure after it. -/
  furthest : Furthest

/-- Parse actions that report steps. -/
abbrev ScriptM (τ V : Type) : Type → Type :=
  ParseT τ (StateM (List (StepReport V)))

namespace Step

variable {τ V : Type}

/-- The step ends the body it stands in if it finds nothing. -/
def must : Step V → Bool
  | .consume _ must => must
  | .rule _ _ _ must => must
  | .named _ _ _ must => must
  | _ => false

/-- Report what a step gave. -/
def note (depth : Nat) (step : Step V) (result : StepResult V) : ScriptM τ V Unit := do
  let s ← get
  modifyThe (List (StepReport V)) (· ++ [⟨step, depth, result, s.pos, s.furthest⟩])

/-- Run an action for a step and report it when it completes or is refused. -/
def reported (depth : Nat) (step : Step V) (action : ScriptM τ V (StepResult V)) :
    ScriptM τ V (StepResult V) := do
  try
    let result ← action
    step.note depth result
    return result
  catch
    | .refused e =>
        step.note depth (.refused e)
        throw (.refused e)
    | halt => throw halt

mutual

/-- Perform a step that stands in `depth` bodies. -/
def perform [Tracer τ V] (depth : Nat) : Step V → ScriptM τ V (StepResult V)
  | .consume expected _ => return .text (← ParseT.consume expected)
  | .fail expected => do
      ParseT.fail expected
      return .done
  | .seek pos => do
      ParseT.seek pos
      return .done
  | .position offset => return .position (← ParseT.position offset)
  | .location start stop => return .location (← ParseT.location start stop)
  | .rest => return .text (some (← ParseT.rest))
  | .input => return .text (some (String.ofList (← get).input))
  | .isTracing => return .flag (← get).isTracing
  | .furthest => return .furthest (← get).furthest
  | .error => return .failure (← ParseT.error)
  | .raise e => throw (.refused e)
  | .silenced body => return .flag (← ParseT.silenced (runBody (depth + 1) body))
  | .rule name body result _ =>
      return .value (← ParseT.rule name do
        return if ← runBody (depth + 1) body then result else none)
  | .named name body result _ =>
      return .value (← ParseT.named name do
        return if ← runBody (depth + 1) body then result else none)

/-- Run the steps of a body.  The answer is whether it ran to its end. -/
def runBody [Tracer τ V] (depth : Nat) : List (Step V) → ScriptM τ V Bool
  | [] => return true
  | step :: steps => do
      let result ← step.reported depth (step.perform depth)
      if step.must && result.isMissing then return false else runBody depth steps

end

/-- Run the steps of a script.  Neither a missing result nor a refusal ends it. -/
def runAll [Tracer τ V] : List (Step V) → ScriptM τ V Unit
  | [] => return ()
  | step :: steps => do
      try
        discard <| step.reported 0 (step.perform 0)
      catch
        | .refused _ => pure ()
        | halt => throw halt
      runAll steps

end Step

/-- What a script leaves behind. -/
structure ScriptRun (τ V : Type) where
  /-- The reports of the steps that completed. -/
  reports : List (StepReport V)
  /-- The result of the parse, if it was asked for, unless the run was ended. -/
  finish : Except Halt (Option (Except SyntaxError V))
  /-- The state at the end. -/
  state : State τ

/-- Run a script over an input.  With `finish` the parse is finished with that value. -/
def runScript {τ V : Type} [Tracer τ V] (input : String) (tracer : Option τ)
    (steps : List (Step V)) (finish : Option (Option V)) : ScriptRun τ V :=
  let action : ScriptM τ V (Option (Except SyntaxError V)) := do
    Step.runAll steps
    match finish with
    | none => return none
    | some result => return some (← ParseT.finish result)
  let ((result, state), reports) := (action.runFrom (State.init input tracer)).run []
  ⟨reports, result, state⟩

end PegGen
