import PegGen.Compile.Stages

/-!
# Probe passes

Passes for watching how stages run.  A probe first writes down what it sees: the stage, its own kind
and argument, the number of rules, the start rules and whether there is code.  Then it does one
simple thing to the grammar or the session, or fails.
-/

namespace PegGen

/-- What a probe does. -/
inductive ProbeKind where
  /-- Report its argument. -/
  | report (severity : Severity)
  /-- Fail with its argument. -/
  | fail
  /-- Put its argument in place of the code. -/
  | code
  /-- Remove the rules that have its argument as name. -/
  | drop
  /-- Fail if the stage has reported errors. -/
  | check
  /-- Do nothing. -/
  | note
deriving DecidableEq, Repr, Inhabited

/-- The word for what a probe does. -/
def ProbeKind.word : ProbeKind → String
  | .report .error => "error"
  | .report .warning => "warning"
  | .report .info => "info"
  | .fail => "fail"
  | .code => "code"
  | .drop => "drop"
  | .check => "check"
  | .note => "note"

/-- A probe. -/
structure Probe where
  /-- What it does. -/
  kind : ProbeKind
  /-- Its argument. -/
  arg : String := ""
  /-- The location of what it reports. -/
  location : Option Location := none
deriving DecidableEq, Repr, Inhabited

/-- The monad of probes, which keeps what they have seen. -/
abbrev ProbeM : Type → Type :=
  StateM (List String)

namespace Probe

/-- What a probe sees. -/
def sight (p : Probe) (options : Options) (w : Work) : String :=
  w.session.stage ++ ":" ++ p.kind.word ++ ":" ++ p.arg ++
    " rules=" ++ toString w.grammar.rules.length ++
    " start=" ++ Text.joinWith "," options.startRules ++
    " code=" ++ (if w.grammar.code.isSome then "true" else "false")

/-- What a probe does. -/
def act (p : Probe) : Pass ProbeM := do
  match p.kind with
  | .report severity => PassT.report severity p.arg p.location
  | .fail => throw (.pass p.arg)
  | .code => PassT.setGrammar { ← PassT.grammar with code := some p.arg }
  | .drop =>
      let g ← PassT.grammar
      PassT.setGrammar { g with rules := g.rules.filter (·.name ≠ p.arg) }
  | .check => PassT.checkErrors
  | .note => return ()

/-- The pass of a probe. -/
def pass (p : Probe) : Pass ProbeM := do
  let sight := p.sight (← read) (← get)
  modifyThe (List String) (· ++ [sight])
  p.act

end Probe

end PegGen
