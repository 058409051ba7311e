import PegGen.Grammar.Eval

/-!
# Runs of evaluations

What the run of an expression comes to, in terms of the runs of its parts: one equation per shape.
Proofs about evaluation open an expression by these equations.

Without a tracer a rule invocation is its body, with the position put back on failure
(`runFrom_rule`).
-/

namespace PegGen

open ParseT

variable {τ : Type}

/-! ## Actions around a body -/

/-- The state with one silencer more. -/
def State.silence (s : State τ) : State τ :=
  { s with silencers := s.silencers + 1 }

/-- The state with one silencer less. -/
def State.unsilence (s : State τ) : State τ :=
  { s with silencers := s.silencers - 1 }

/-- The state at another offset. -/
def State.at (pos : Nat) (s : State τ) : State τ :=
  { s with pos := pos }

section Bodies

variable {V : Type}

/-- The end of a rule invocation that began at an offset, without a tracer. -/
def closeRule (start : Nat) :
    Except Halt (Option V) × State τ → Except Halt (Option V) × State τ
  | (.ok none, s) => (.ok none, s.at start)
  | r => r

/-- The end of a body under a description. -/
def closeNamed (description : String) :
    Except Halt (Option V) × State τ → Except Halt (Option V) × State τ
  | (.ok none, s) => (.ok none, s.unsilence.fail (.other description))
  | (r, s) => (r, s.unsilence)

/-- A named body is run with one silencer more, which is taken away in the end. -/
theorem runFrom_named (description : String) (body : ParseM τ (Option V)) (s : State τ) :
    runFrom s (named description body) = closeNamed description (runFrom s.silence body) := by
  rw [named, runFrom_bind, runFrom_silenced]
  show andThen _ ((runFrom s.silence body).1, (runFrom s.silence body).2.unsilence) = _
  cases runFrom s.silence body with
  | mk r s' =>
      cases r with
      | error halt => rfl
      | ok result =>
          cases result with
          | none => rfl
          | some value => rfl

/-- Without a tracer there is nothing to report. -/
theorem runFrom_report [Tracer τ V] {s : State τ} (hs : s.tracer = none) (start stop : Nat)
    (event : Location → Event V) :
    runFrom s (report start stop event : ParseM τ Unit) = (.ok (), s) := by
  rw [report, runFrom_bind, runFrom_get, andThen, State.isTracing, hs]
  rfl

/-- Without a tracer a rule invocation is its body, which goes back if it gives nothing. -/
theorem runFrom_rule [Tracer τ V] {s : State τ} (hs : s.tracer = none) (name : String)
    (body : ParseM τ (Option V)) (hbody : (runFrom s body).2.tracer = none) :
    runFrom s (rule name body) = closeRule s.pos (runFrom s body) := by
  rw [rule, runFrom_bind, runFrom_pos, andThen, runFrom_bind, runFrom_report hs, andThen,
    runFrom_bind]
  cases hr : runFrom s body with
  | mk r s' =>
      rw [hr] at hbody
      cases r with
      | error halt => rfl
      | ok result =>
          cases result with
          | none =>
              rw [andThen, runFrom_bind, runFrom_seek, andThen, runFrom_bind,
                runFrom_report (s := { s' with pos := s.pos }) hbody]
              rfl
          | some value =>
              rw [andThen, runFrom_bind, runFrom_pos, andThen, runFrom_bind, runFrom_report hbody]
              rfl

end Bodies

/-! ## Expressions -/

namespace Expression

variable (call : String → ParseM τ (Option Tree)) (s : State τ)

/-- The run of a leaf. -/
def leafRun (e : Expectation) (s : State τ) : Except Halt (Option Tree) × State τ :=
  match s.consume? e with
  | some (text, s') => (.ok (text.map Tree.leaf), s')
  | none => (.error .badOffset, s)

/-- The result of a sequence that began at an offset. -/
def seqResult (start : Nat) :
    Except Halt (Option (List Tree)) × State τ → Except Halt (Option Tree) × State τ
  | (.ok (some values), s) => (.ok (some (.node values)), s)
  | (.ok none, s) => (.ok none, s.at start)
  | (.error halt, s) => (.error halt, s)

/-- The result of the items of a sequence after a first value. -/
def consResult (value : Tree) :
    Except Halt (Option (List Tree)) × State τ → Except Halt (Option (List Tree)) × State τ
  | (.ok values, s) => (.ok (values.map (value :: ·)), s)
  | (.error halt, s) => (.error halt, s)

/-- A leaf gives the text that it takes. -/
theorem runFrom_leaf (e : Expectation) :
    runFrom s (do return (← consume e).map Tree.leaf : ParseM τ (Option Tree)) = leafRun e s := by
  rw [runFrom_bind, consume, runFrom_ofStep, leafRun]
  cases s.consume? e with
  | none => rfl
  | some r => rfl

theorem runFrom_eval_literal (value : String) (ignoreCase : Bool) :
    runFrom s ((literal value ignoreCase).eval call) = leafRun (.literal value ignoreCase) s := by
  rw [eval]
  exact runFrom_leaf s (.literal value ignoreCase)

theorem runFrom_eval_charClass (k : CharClass) :
    runFrom s ((charClass k).eval call) = leafRun (.charClass k) s := by
  rw [eval]
  exact runFrom_leaf s (.charClass k)

theorem runFrom_eval_any : runFrom s (any.eval call) = leafRun .any s := by
  rw [eval]
  exact runFrom_leaf s .any

/-- A reference is a rule invocation. -/
theorem runFrom_eval_ref (name : String) (location : Location) :
    runFrom s ((ref name location).eval call) = runFrom s (call name) := by
  rw [eval]

/-- A sequence collects the values of its items, or goes back. -/
theorem runFrom_eval_seq (items : List Expression) :
    runFrom s ((seq items).eval call) = seqResult s.pos (runFrom s (evalAll call items)) := by
  rw [eval, runFrom_bind, runFrom_pos, andThen, runFrom_bind]
  cases runFrom s (evalAll call items) with
  | mk r s' =>
      cases r with
      | error halt => rfl
      | ok result =>
          cases result with
          | none => rfl
          | some values => rfl

theorem runFrom_eval_choice (items : List Expression) :
    runFrom s ((choice items).eval call) = runFrom s (evalFirst call items) := by
  rw [eval]

/-- A description is around the run of what it describes. -/
theorem runFrom_eval_named (name : String) (body : Expression) :
    runFrom s ((named name body).eval call) =
      closeNamed name (runFrom s.silence (body.eval call)) := by
  rw [eval, runFrom_named]

theorem runFrom_evalAll_nil : runFrom s (evalAll call []) = (.ok (some []), s) := by
  rw [evalAll, runFrom_pure]

/-- The items of a sequence are run up to the first that gives nothing. -/
theorem runFrom_evalAll_cons (e : Expression) (es : List Expression) :
    runFrom s (evalAll call (e :: es)) =
      match runFrom s (e.eval call) with
      | (.ok (some value), s') => consResult value (runFrom s' (evalAll call es))
      | (.ok none, s') => (.ok none, s')
      | (.error halt, s') => (.error halt, s') := by
  rw [evalAll, runFrom_bind]
  cases runFrom s (e.eval call) with
  | mk r s' =>
      cases r with
      | error halt => rfl
      | ok result =>
          cases result with
          | none => rfl
          | some value =>
              show andThen _ _ = consResult value (runFrom s' (evalAll call es))
              rw [andThen, runFrom_bind]
              cases runFrom s' (evalAll call es) with
              | mk r s'' =>
                  cases r with
                  | error halt => rfl
                  | ok values => rfl

theorem runFrom_evalFirst_nil : runFrom s (evalFirst call []) = (.ok none, s) := by
  rw [evalFirst, runFrom_pure]

/-- The items of a choice are run up to the first that gives a value. -/
theorem runFrom_evalFirst_cons (e : Expression) (es : List Expression) :
    runFrom s (evalFirst call (e :: es)) =
      match runFrom s (e.eval call) with
      | (.ok (some value), s') => (.ok (some value), s')
      | (.ok none, s') => runFrom s' (evalFirst call es)
      | (.error halt, s') => (.error halt, s') := by
  rw [evalFirst, runFrom_bind]
  cases runFrom s (e.eval call) with
  | mk r s' =>
      cases r with
      | error halt => rfl
      | ok result =>
          cases result with
          | none => rfl
          | some value => rfl

end Expression

end PegGen
