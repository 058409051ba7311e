import PegGen.Compile.Options
import PegGen.Grammar.Printer
import PegGen.Ordered.Map

/-!
# Passes and stages

A pass is one action on the grammar and the session, under the options.  A stage is a named group of
passes.  Stages run one after the other, and so do the passes of a stage.

A pass that fails ends the run with its error.  Errors reported to the session end the run when the
stage that reported them is done.

Passes live over a base monad `m`, in which a caller can keep a state of its own.
-/

namespace PegGen

/-- What passes work on. -/
structure Work where
  /-- The grammar. -/
  grammar : Grammar := {}
  /-- The session. -/
  session : Session := {}
deriving Inhabited

/-- Actions on the grammar and the session, under the options. -/
abbrev PassT (m : Type → Type) : Type → Type :=
  ReaderT Options (ExceptT CompileError (StateT Work m))

/-- An action that a stage runs. -/
abbrev Pass (m : Type → Type) : Type :=
  PassT m Unit

/-- The passes of a stage, as a list or by name. -/
inductive PassSet (m : Type → Type) where
  /-- Passes in the order they run. -/
  | sequence (passes : List (Pass m))
  /-- Named passes, in the order they run.  The names let a caller replace one. -/
  | named (passes : OrderedMap (Pass m))

/-- The passes in the order they run. -/
def PassSet.toList {m : Type → Type} : PassSet m → List (Pass m)
  | .sequence passes => passes
  | .named passes => passes.values

/-- The passes of each stage, in the order the stages run. -/
abbrev Stages (m : Type → Type) : Type :=
  OrderedMap (List (Pass m))

/-- Stages from the passes in either form. -/
def Stages.ofSets {m : Type → Type} (sets : OrderedMap (PassSet m)) : Stages m :=
  sets.map PassSet.toList

namespace PassT

variable {m : Type → Type} [Monad m] {α : Type}

/-- Run an action with options, from a grammar and a session. -/
def runWith (options : Options) (work : Work) (action : PassT m α) :
    m (Except CompileError α × Work) :=
  ((ReaderT.run action options).run).run work

/-- The grammar as it stands. -/
def grammar : PassT m Grammar :=
  return (← get).grammar

/-- Put another grammar in place. -/
def setGrammar (g : Grammar) : Pass m :=
  modify fun w => { w with grammar := g }

/-- Change the session. -/
def onSession (f : Session → Session) : Pass m :=
  modify fun w => { w with session := f w.session }

/-- Write a line to the log. -/
def note (level : LogLevel) (message : String) : Pass m :=
  onSession (·.note level message)

/-- Report a diagnostic. -/
def report (severity : Severity) (message : String) (location : Option Location) : Pass m :=
  onSession (·.report severity message location)

/-- Fail if the current stage has reported errors. -/
def checkErrors : Pass m := do
  match (← get).session.failure? with
  | some failure => throw (.stage failure)
  | none => return ()

/-! ## Runs of actions on their own

What a run of each action does, for actions without a base monad. -/

section Run

variable {β : Type}

/-- How the run of an action goes on with another. -/
def andThen (options : Options) (f : α → PassT Id β) :
    Except CompileError α × Work → Except CompileError β × Work
  | (.ok a, w) => runWith options w (f a)
  | (.error e, w) => (.error e, w)

theorem runWith_bind (options : Options) (x : PassT Id α) (f : α → PassT Id β) (w : Work) :
    runWith options w (x >>= f) = andThen options f (runWith options w x) := by
  rw [runWith, ReaderT.run_bind, ExceptT.run_bind, StateT.run_bind]
  cases h : ((ReaderT.run x options).run).run w with
  | mk r w' =>
      rw [runWith, h]
      cases r <;> rfl

@[simp] theorem runWith_pure (options : Options) (a : α) (w : Work) :
    runWith options w (pure a : PassT Id α) = (.ok a, w) := rfl

@[simp] theorem runWith_throw (options : Options) (e : CompileError) (w : Work) :
    runWith options w (throw e : PassT Id α) = (.error e, w) := rfl

@[simp] theorem runWith_read (options : Options) (w : Work) :
    runWith options w (read : PassT Id Options) = (.ok options, w) := rfl

@[simp] theorem runWith_grammar (options : Options) (w : Work) :
    runWith options w (grammar : PassT Id Grammar) = (.ok w.grammar, w) := rfl

@[simp] theorem runWith_setGrammar (options : Options) (g : Grammar) (w : Work) :
    runWith options w (setGrammar g : Pass Id) = (.ok (), { w with grammar := g }) := rfl

@[simp] theorem runWith_onSession (options : Options) (f : Session → Session) (w : Work) :
    runWith options w (onSession f : Pass Id) = (.ok (), { w with session := f w.session }) := rfl

theorem runWith_checkErrors (options : Options) (w : Work) :
    runWith options w (checkErrors : Pass Id) =
      match w.session.failure? with
      | some failure => (.error (.stage failure), w)
      | none => (.ok (), w) := by
  rw [checkErrors, runWith_bind]
  show andThen options _ (.ok w, w) = _
  rw [andThen]
  cases w.session.failure? <;> rfl

end Run

end PassT

open PassT

variable {m : Type → Type} [Monad m]

/-- Run the passes of a stage, of which the first is number `n`. -/
def runPasses (stage : String) (n : Nat) : List (Pass m) → Pass m
  | [] => return ()
  | pass :: passes => do
      note .trace ("process pass " ++ stage ++ "." ++ toString n)
      pass
      runPasses stage (n + 1) passes

/-- Run a stage. -/
def runStage (stage : String) (passes : List (Pass m)) : Pass m := do
  note .debug ("process stage " ++ stage ++ " (" ++ toString passes.length ++ " passes)")
  onSession (·.enter stage)
  runPasses stage 0 passes
  checkErrors

/-- Run a list of stages. -/
def runEach : List (String × List (Pass m)) → Pass m
  | [] => return ()
  | (stage, passes) :: stages => do
      runStage stage passes
      runEach stages

/-- Run all stages and log the grammar they leave. -/
def runStages (stages : Stages m) : Pass m := do
  runEach stages.entries
  note .debug ("\n" ++ (← grammar).render)

end PegGen
