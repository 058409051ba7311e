import PegGen.Parse.State
import PegGen.Trace.Tracer

/-!
# Parse actions

A parse action moves a parse state and gives a value, unless it halts.  It halts when the tracer
refuses an event, when the input is read at an offset that is not that of a character, or when an
evaluation runs out of fuel.  The state survives a halt.

Actions live over a base monad `m`, in which a caller can keep a state of its own.

Besides the elementary steps there are three ways to run an action inside another.

* `silenced` takes no note of the failures inside.
* `named` silences its body and reports its failure as one description.
* `rule` is one rule invocation: it tells the tracer, and puts the offset back on failure.
-/

namespace PegGen

/-- Why an action halts. -/
inductive Halt where
  /-- The tracer refused an event. -/
  | refused (e : TraceError)
  /-- The input was read at an offset that is not that of a character. -/
  | badOffset
  /-- The fuel of an evaluation did not suffice. -/
  | outOfFuel
deriving DecidableEq, Repr

/-- Parse actions with a tracer of type `τ` over a base monad. -/
abbrev ParseT (τ : Type) (m : Type → Type) : Type → Type :=
  ExceptT Halt (StateT (State τ) m)

/-- Parse actions on their own. -/
abbrev ParseM (τ : Type) : Type → Type :=
  ParseT τ Id

namespace ParseT

variable {τ V α : Type} {m : Type → Type} [Monad m]

/-- Run an action from a state. -/
def runFrom (s : State τ) (action : ParseT τ m α) : m (Except Halt α × State τ) :=
  (ExceptT.run action).run s

/-- The action of an elementary step that may have no result. -/
def ofStep (f : State τ → Option (α × State τ)) : ParseT τ m α := do
  match f (← get) with
  | some (a, s) =>
      set s
      return a
  | none => throw .badOffset

/-- The current byte offset. -/
def pos : ParseT τ m Nat :=
  return (← get).pos

/-- Go to a byte offset, whatever it is. -/
def seek (pos : Nat) : ParseT τ m Unit :=
  modify fun s => { s with pos := pos }

/-- The input from the current offset on. -/
def rest : ParseT τ m String :=
  ofStep fun s => s.rest?.map fun rest => (String.ofList rest, s)

/-- The position of a byte offset. -/
def position (offset : Nat) : ParseT τ m Position :=
  ofStep (State.position? offset)

/-- The location between two byte offsets. -/
def location (start stop : Nat) : ParseT τ m Location :=
  ofStep (State.location? start stop)

/-- Take note that `e` would have matched here. -/
def fail (e : Expectation) : ParseT τ m Unit :=
  modify (State.fail e)

/-- Match an expectation, giving the text that it accepts. -/
def consume (e : Expectation) : ParseT τ m (Option String) :=
  ofStep (State.consume? e)

/-- The syntax error at the furthest failure. -/
def error : ParseT τ m SyntaxError :=
  ofStep State.error?

/-- The result of a parse whose start rule gave `result`. -/
def finish (result : Option V) : ParseT τ m (Except SyntaxError V) :=
  ofStep (State.finish? result)

/-- Run an action without taking note of its failures. -/
def silenced (body : ParseT τ m α) : ParseT τ m α :=
  ExceptT.mk do
    modify fun s => { s with silencers := s.silencers + 1 }
    let result ← body.run
    modify fun s => { s with silencers := s.silencers - 1 }
    return result

/-- Run an action whose failure reads as one description. -/
def named (description : String) (body : ParseT τ m (Option V)) : ParseT τ m (Option V) := do
  let result ← silenced body
  if result.isNone then
    fail (.other description)
  return result

/-- Tell the tracer of an event, if there is a tracer. -/
def tell [Tracer τ V] (event : Event V) : ParseT τ m Unit := do
  match (← get).tracer with
  | none => return ()
  | some tracer =>
      let reply := Tracer.trace tracer event
      modify fun s => { s with tracer := some reply.next, log := s.log ++ reply.notes }
      match reply.verdict with
      | .ok () => return ()
      | .error e => throw (.refused e)

/-- Tell the tracer of an event between two byte offsets.  Without a tracer the location is not
computed. -/
def report [Tracer τ V] (start stop : Nat) (event : Location → Event V) : ParseT τ m Unit := do
  if (← get).isTracing then
    tell (event (← location start stop))

/-- One invocation of a rule. -/
def rule [Tracer τ V] (name : String) (body : ParseT τ m (Option V)) : ParseT τ m (Option V) := do
  let start ← pos
  report (V := V) start start (.enter name)
  let result ← body
  match result with
  | some value => report start (← pos) (.matched name · value)
  | none =>
      seek start
      report (V := V) start start (.failed name)
  return result

/-! ## Runs of actions on their own

What a run of each action does, for actions without a base monad. -/

section Run

variable {β : Type}

/-- How the run of an action goes on with another. -/
def andThen (f : α → ParseM τ β) : Except Halt α × State τ → Except Halt β × State τ
  | (.ok a, s) => runFrom s (f a)
  | (.error halt, s) => (.error halt, s)

theorem runFrom_bind (x : ParseM τ α) (f : α → ParseM τ β) (s : State τ) :
    runFrom s (x >>= f) = andThen f (runFrom s x) := by
  rw [runFrom, ExceptT.run_bind, StateT.run_bind]
  cases h : (ExceptT.run x).run s with
  | mk r s' =>
      rw [runFrom, h]
      cases r <;> rfl

@[simp] theorem runFrom_pure (a : α) (s : State τ) :
    runFrom s (pure a : ParseM τ α) = (.ok a, s) := rfl

@[simp] theorem runFrom_throw (halt : Halt) (s : State τ) :
    runFrom s (throw halt : ParseM τ α) = (.error halt, s) := rfl

@[simp] theorem runFrom_get (s : State τ) :
    runFrom s (get : ParseM τ (State τ)) = (.ok s, s) := rfl

@[simp] theorem runFrom_modify (f : State τ → State τ) (s : State τ) :
    runFrom s (modify f : ParseM τ Unit) = (.ok (), f s) := rfl

@[simp] theorem runFrom_pos (s : State τ) : runFrom s (pos : ParseM τ Nat) = (.ok s.pos, s) := rfl

@[simp] theorem runFrom_seek (p : Nat) (s : State τ) :
    runFrom s (seek p : ParseM τ Unit) = (.ok (), { s with pos := p }) := rfl

@[simp] theorem runFrom_fail (e : Expectation) (s : State τ) :
    runFrom s (fail e : ParseM τ Unit) = (.ok (), s.fail e) := rfl

theorem runFrom_ofStep (f : State τ → Option (α × State τ)) (s : State τ) :
    runFrom s (ofStep f : ParseM τ α) =
      match f s with
      | some (a, s') => (.ok a, s')
      | none => (.error .badOffset, s) := by
  rw [ofStep, runFrom_bind, runFrom_get, andThen]
  cases f s with
  | none => rfl
  | some r => rfl

theorem runFrom_silenced (x : ParseM τ α) (s : State τ) :
    runFrom s (silenced x) =
      let r := runFrom { s with silencers := s.silencers + 1 } x
      (r.1, { r.2 with silencers := r.2.silencers - 1 }) := rfl

end Run

/-! ## Runs over a base monad

The same over any base monad that is lawful, for the actions that reports to a tracer are made
of. -/

section BaseRun

variable {β : Type}

theorem runFrom_bind_base (x : ParseT τ m α) (f : α → ParseT τ m β) (s : State τ) :
    runFrom s (x >>= f) = runFrom s x >>= fun
      | (.ok a, s') => runFrom s' (f a)
      | (.error halt, s') => pure (.error halt, s') := by
  rw [runFrom, ExceptT.run_bind, StateT.run_bind]
  refine bind_congr fun r => ?_
  obtain ⟨halt | a, s'⟩ := r
  · rfl
  · rfl

variable [LawfulMonad m]

theorem runFrom_get_base (s : State τ) :
    runFrom s (get : ParseT τ m (State τ)) = pure (.ok s, s) :=
  pure_bind (s, s) _

theorem runFrom_modify_base (f : State τ → State τ) (s : State τ) :
    runFrom s (modify f : ParseT τ m Unit) = pure (.ok (), f s) :=
  pure_bind ((), f s) _

theorem runFrom_set_base (s s' : State τ) :
    runFrom s (set s' : ParseT τ m PUnit) = pure (.ok (), s') :=
  pure_bind ((), s') _

theorem runFrom_ofStep_base (f : State τ → Option (α × State τ)) (s : State τ) :
    runFrom s (ofStep f : ParseT τ m α) =
      pure (match f s with
      | some (a, s') => (.ok a, s')
      | none => (.error .badOffset, s)) := by
  rw [ofStep, runFrom_bind_base, runFrom_get_base, pure_bind]
  dsimp only
  cases f s with
  | none => rfl
  | some r =>
      dsimp only
      rw [runFrom_bind_base, runFrom_set_base, pure_bind]
      rfl

end BaseRun

end ParseT

/-! ## Outcomes of a whole parse -/

/-- Why a parse gives no value. -/
inductive ParseError where
  /-- The input does not match. -/
  | mismatch (e : SyntaxError)
  /-- The tracer refused an event. -/
  | refused (e : TraceError)
  /-- The parse may not start from this rule. -/
  | startRule (name : String)
deriving DecidableEq, Repr

/-- The error in words. -/
def ParseError.message : ParseError → String
  | .mismatch e => e.render
  | .refused e => "tracing failed: " ++ e.message
  | .startRule name => "Can't start parsing from rule \"" ++ name ++ "\"."

/-- The rule to start from: the first allowed one, unless another is asked for. -/
def resolveStart (allowed : List String) : Option String → Except ParseError String
  | none =>
      match allowed with
      | [] => .error (.startRule "")
      | rule :: _ => .ok rule
  | some name => if name ∈ allowed then .ok name else .error (.startRule name)

end PegGen
