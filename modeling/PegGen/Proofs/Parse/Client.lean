import PegGen.Parse.Action
import PegGen.Proofs.Parse.Steps

/-!
# Clients of a parse state

A client is anything that works on a parse state through its calls.  It sees what each call gives,
and may look at the state, before it decides how to go on.  The body of a call is a client of its
own.  It ends with a value, with nothing, or with the error of a tracer.  Who has made the call
receives that error as its answer, and may pass it on or go on as if nothing had happened.

A run of a client keeps a history.  It has a moment for the beginning of every body and for the end
of every call, with the state at that moment.  It also says which failure the call raised, if any,
and how many bodies of silenced or named calls are active.  This is counted by the run, apart from
what the state counts.
-/

namespace PegGen

open ParseT

variable {τ V α β : Type}

/-- What is done with a parse state, call by call. -/
inductive Client (τ V : Type) where
  /-- End with a value, with nothing, or with the error of a tracer. -/
  | done (ending : Except TraceError (Option V))
  /-- Look at the state. -/
  | look (next : State τ → Client τ V)
  /-- Go to an offset. -/
  | seek (pos : Nat) (next : Client τ V)
  /-- Raise a failure. -/
  | fail (e : Expectation) (next : Client τ V)
  /-- Match an expectation, which raises a failure if it does not match. -/
  | consume (e : Expectation) (next : Option String → Client τ V)
  /-- Ask for a position. -/
  | position (offset : Nat) (next : Position → Client τ V)
  /-- Ask for a location. -/
  | location (start stop : Nat) (next : Location → Client τ V)
  /-- Ask for the syntax error at the furthest failure. -/
  | error (next : SyntaxError → Client τ V)
  /-- Run a body without taking note of its failures. -/
  | silenced (body : Client τ V) (next : Except TraceError (Option V) → Client τ V)
  /-- Invoke a rule. -/
  | rule (name : String) (body : Client τ V) (next : Except TraceError (Option V) → Client τ V)
  /-- Run a body under a description, which raises a failure if the body finds nothing. -/
  | named (description : String) (body : Client τ V)
      (next : Except TraceError (Option V) → Client τ V)

/-- A moment of a run. -/
structure Moment (τ : Type) where
  /-- The number of silenced and named calls whose bodies are active. -/
  depth : Nat
  /-- The failure that was raised by the call before this moment, with its offset. -/
  raised : Option (Nat × Expectation)
  /-- The state. -/
  state : State τ

/-- Parse actions that keep a history. -/
abbrev WatchedM (τ : Type) : Type → Type :=
  ParseT τ (StateM (List (Moment τ)))

namespace WatchedM

/-- Run an action from a state and a history. -/
def runFrom (s : State τ) (h : List (Moment τ)) (x : WatchedM τ α) :
    (Except Halt α × State τ) × List (Moment τ) :=
  (ParseT.runFrom s x).run h

/-- Add the present moment to the history. -/
def note (depth : Nat) (raised : Option (Nat × Expectation)) : WatchedM τ Unit := do
  let s ← get
  modifyThe (List (Moment τ)) (· ++ [⟨depth, raised, s⟩])

/-- The beginning of a body is a moment too. -/
def begun (depth : Nat) (body : WatchedM τ α) : WatchedM τ α := do
  note depth none
  body

/-- Run an action and take the error of a tracer for its answer. -/
def attempt (x : WatchedM τ α) : WatchedM τ (Except TraceError α) :=
  tryCatch (do return .ok (← x)) fun
    | .refused e => return .error e
    | halt => throw halt

/-! ## Runs -/

/-- A watched action goes on with the history that the first part has left. -/
theorem runFrom_bind (x : WatchedM τ α) (f : α → WatchedM τ β) (s : State τ)
    (h : List (Moment τ)) :
    runFrom s h (x >>= f) =
      match runFrom s h x with
      | ((.ok a, s'), h') => runFrom s' h' (f a)
      | ((.error halt, s'), h') => ((.error halt, s'), h') := by
  show StateT.run (StateT.run (ExceptT.run (x >>= f)) s) h = _
  rw [ExceptT.run_bind, StateT.run_bind, StateT.run_bind, runFrom, ParseT.runFrom]
  rcases StateT.run (StateT.run (ExceptT.run x) s) h with ⟨⟨halt | a, s'⟩, h'⟩
  · rfl
  · rfl

theorem runFrom_pos (s : State τ) (h : List (Moment τ)) :
    runFrom s h ParseT.pos = ((.ok s.pos, s), h) := rfl

/-- An elementary step is no moment of the history. -/
theorem runFrom_ofStep (f : State τ → Option (α × State τ)) (s : State τ) (h : List (Moment τ)) :
    runFrom s h (ofStep f) =
      match f s with
      | some (a, s') => ((.ok a, s'), h)
      | none => ((.error .badOffset, s), h) := by
  rw [ofStep, runFrom_bind]
  show runFrom s h (match f s with | some (a, s') => _ | none => _) = _
  cases f s with
  | none => rfl
  | some r => rfl

/-- What is done after a halt begins where that has happened. -/
theorem runFrom_tryCatch (x : WatchedM τ α) (f : Halt → WatchedM τ α) (s : State τ)
    (h : List (Moment τ)) :
    runFrom s h (tryCatch x f) =
      match runFrom s h x with
      | ((.ok a, s'), h') => ((.ok a, s'), h')
      | ((.error halt, s'), h') => runFrom s' h' (f halt) := by
  show StateT.run (StateT.run (ExceptT.run (tryCatch x f)) s) h = _
  rw [ExceptT.run_tryCatch, StateT.run_bind, StateT.run_bind, runFrom, ParseT.runFrom]
  rcases StateT.run (StateT.run (ExceptT.run x) s) h with ⟨⟨halt | a, s'⟩, h'⟩
  · rfl
  · rfl

/-- The refusal of a tracer can be dealt with, and every other halt cannot. -/
theorem runFrom_attempt (x : WatchedM τ α) (s : State τ) (h : List (Moment τ)) :
    runFrom s h (attempt x) =
      match runFrom s h x with
      | ((.ok a, s'), h') => ((.ok (.ok a), s'), h')
      | ((.error (.refused e), s'), h') => ((.ok (.error e), s'), h')
      | ((.error halt, s'), h') => ((.error halt, s'), h') := by
  rw [attempt, runFrom_tryCatch, runFrom_bind]
  rcases runFrom s h x with ⟨⟨halt | a, s'⟩, h'⟩
  · cases halt with
    | refused e => rfl
    | badOffset => rfl
    | outOfFuel => rfl
  · rfl

/-- A run that has a value leaves a state and a history. -/
theorem exists_run_of_toOption {x : WatchedM τ α} {s : State τ} {h : List (Moment τ)} {a : α}
    (hok : (runFrom s h x).1.1.toOption = some a) : ∃ s' h', runFrom s h x = ((.ok a, s'), h') := by
  rcases hrun : runFrom s h x with ⟨⟨halt | b, s'⟩, h'⟩
  · rw [hrun] at hok
    cases hok
  · rw [hrun] at hok
    cases hok
    exact ⟨s', h', rfl⟩

/-! ## Invariants -/

/-- The action keeps an invariant of state and history, however it ends. -/
def Keeps (I : State τ → List (Moment τ) → Prop) (x : WatchedM τ α) : Prop :=
  ∀ s h, I s h → I (runFrom s h x).1.2 (runFrom s h x).2

namespace Keeps

variable {I : State τ → List (Moment τ) → Prop}

protected theorem pure (a : α) : Keeps I (pure a : WatchedM τ α) :=
  fun _ _ hI => hI

protected theorem throw (halt : Halt) : Keeps I (throw halt : WatchedM τ α) :=
  fun _ _ hI => hI

/-- What two actions keep is kept by doing them one after the other. -/
theorem bind {x : WatchedM τ α} {f : α → WatchedM τ β} (hx : Keeps I x)
    (hf : ∀ a, Keeps I (f a)) : Keeps I (x >>= f) := by
  intro s h hI
  have hI' := hx s h hI
  rw [runFrom_bind]
  rcases hr : runFrom s h x with ⟨⟨halt | a, s'⟩, h'⟩
  · rw [hr] at hI'
    exact hI'
  · rw [hr] at hI'
    exact hf a s' h' hI'

/-- A step that may fail keeps what it keeps where it does not. -/
theorem ofStep {f : State τ → Option (α × State τ)}
    (hf : ∀ s a s' h, f s = some (a, s') → I s h → I s' h) : Keeps I (ofStep f) := by
  intro s h hI
  rw [runFrom_ofStep]
  cases hr : f s with
  | none => exact hI
  | some r => exact hf s r.1 r.2 h hr hI

/-- Dealing with a refusal changes neither the state nor the history. -/
theorem attempt {x : WatchedM τ α} (hx : Keeps I x) : Keeps I (attempt x) := by
  intro s h hI
  have hI' := hx s h hI
  rw [runFrom_attempt]
  rcases hr : runFrom s h x with ⟨⟨halt | a, s'⟩, h'⟩
  · rw [hr] at hI'
    cases halt with
    | refused e => exact hI'
    | badOffset => exact hI'
    | outOfFuel => exact hI'
  · rw [hr] at hI'
    exact hI'

end Keeps

end WatchedM

namespace Client

open WatchedM

/-- The answer is that nothing was found. -/
def foundNothing : Except TraceError (Option V) → Bool
  | .ok none => true
  | _ => false

/-- Run a client while `depth` silenced and named calls are active. -/
def run [Tracer τ V] (depth : Nat) : Client τ V → WatchedM τ (Option V)
  | .done (.ok result) => return result
  | .done (.error e) => throw (.refused e)
  | .look next => do (next (← get)).run depth
  | .seek pos next => do
      ParseT.seek pos
      note depth none
      next.run depth
  | .fail e next => do
      let pos ← ParseT.pos
      ParseT.fail e
      note depth (some (pos, e))
      next.run depth
  | .consume e next => do
      let pos ← ParseT.pos
      let taken ← ParseT.consume e
      note depth (if taken.isNone then some (pos, e) else none)
      (next taken).run depth
  | .position offset next => do
      let position ← ParseT.position offset
      note depth none
      (next position).run depth
  | .location start stop next => do
      let location ← ParseT.location start stop
      note depth none
      (next location).run depth
  | .error next => do
      let e ← ParseT.error
      note depth none
      (next e).run depth
  | .silenced body next => do
      let answer ← attempt (ParseT.silenced (begun (depth + 1) (body.run (depth + 1))))
      note depth none
      (next answer).run depth
  | .rule name body next => do
      let answer ← attempt (ParseT.rule name (begun depth (body.run depth)))
      note depth none
      (next answer).run depth
  | .named description body next => do
      let answer ← attempt (ParseT.named description (begun (depth + 1) (body.run (depth + 1))))
      let pos ← ParseT.pos
      note depth (if foundNothing answer then some (pos, .other description) else none)
      (next answer).run depth

/-- The history of a run over an input. -/
def history [Tracer τ V] (c : Client τ V) (input : String) (tracer : Option τ) :
    List (Moment τ) :=
  (runFrom (State.init input tracer) [] (begun 0 (c.run 0))).2

/-! ## Invariants of runs -/

/-- A property of depth, state and history that is kept by every change that a call makes. -/
structure Invariant (I : Nat → State τ → List (Moment τ) → Prop) : Prop where
  seek : ∀ {depth s h} (pos : Nat), I depth s h → I depth { s with pos := pos } h
  position : ∀ {depth s s' h offset p}, s.position? offset = some (p, s') → I depth s h →
    I depth s' h
  aside : ∀ {depth s h} (tracer : Option τ) (log : List LogRecord), I depth s h →
    I depth { s with tracer := tracer, log := log } h
  quiet : ∀ {depth s h}, I depth s h → I depth s (h ++ [⟨depth, none, s⟩])
  fail : ∀ {depth s h} (e : Expectation), I depth s h →
    I depth (s.fail e) (h ++ [⟨depth, some (s.pos, e), s.fail e⟩])
  silence : ∀ {depth s h}, I depth s h → I (depth + 1) { s with silencers := s.silencers + 1 } h
  unsilence : ∀ {depth s h}, I (depth + 1) s h → I depth { s with silencers := s.silencers - 1 } h

namespace Invariant

variable {I : Nat → State τ → List (Moment τ) → Prop} {depth : Nat}

theorem keepsSeek (hI : Invariant I) (pos : Nat) : Keeps (I depth) (ParseT.seek pos) :=
  fun _ _ hs => hI.seek pos hs

theorem keepsPosition (hI : Invariant I) (offset : Nat) :
    Keeps (I depth) (ParseT.position offset) :=
  .ofStep fun _ _ _ _ hstep hs => hI.position hstep hs

/-- A location is computed from two positions, so what these keep is kept. -/
theorem location? (hI : Invariant I) {s s' : State τ} {h : List (Moment τ)} {start stop : Nat}
    {l : Location} (hstep : s.location? start stop = some (l, s')) (hs : I depth s h) :
    I depth s' h := by
  obtain ⟨s₁, hfirst, hlast⟩ := State.positions_of_location? hstep
  exact hI.position hlast (hI.position hfirst hs)

theorem keepsLocation (hI : Invariant I) (start stop : Nat) :
    Keeps (I depth) (ParseT.location start stop) :=
  .ofStep fun _ _ _ _ hstep hs => hI.location? hstep hs

/-- An error has a location, and besides that it only writes to the log. -/
theorem keepsError (hI : Invariant I) : Keeps (I depth) ParseT.error := by
  refine .ofStep fun s e s' h hstep hs => ?_
  obtain ⟨start, stop, s₁, log, hlocation, rfl⟩ := State.location_of_error? hstep
  exact hI.aside _ _ (hI.location? hlocation hs)

/-- A moment may always be noted. -/
theorem note (hI : Invariant I) : Keeps (I depth) (note depth none) :=
  fun _ _ h => hI.quiet h

/-- Silenced actions are one level deeper. -/
theorem silenced (hI : Invariant I) {x : WatchedM τ α} (hx : Keeps (I (depth + 1)) x) :
    Keeps (I depth) (ParseT.silenced x) :=
  fun _ _ h => hI.unsilence (hx _ _ (hI.silence h))

section Tracing

variable [Tracer τ V]

/-- What a tracer is told changes no more than the tracer and the log. -/
theorem tell (hI : Invariant I) (event : Event V) : Keeps (I depth) (ParseT.tell event) := by
  refine .bind (fun _ _ h => h) fun s => ?_
  cases s.tracer with
  | none => exact .pure _
  | some tracer =>
      refine .bind (fun _ _ h => hI.aside _ _ h) fun _ => ?_
      cases (Tracer.trace tracer event).verdict with
      | ok => exact .pure _
      | error e => exact .throw _

/-- A report computes a location and tells the tracer. -/
theorem report (hI : Invariant I) (start stop : Nat) (event : Location → Event V) :
    Keeps (I depth) (ParseT.report start stop event) := by
  refine .bind (fun _ _ h => h) fun s => ?_
  split
  · exact (hI.keepsLocation start stop).bind fun l => hI.tell (event l)
  · exact .pure _

/-- A rule invocation is its body between two reports, and may go back. -/
theorem rule (hI : Invariant I) (name : String) {x : WatchedM τ (Option V)}
    (hx : Keeps (I depth) x) : Keeps (I depth) (ParseT.rule name x) := by
  refine .bind (fun _ _ h => h) fun start => ?_
  refine (hI.report _ _ _).bind fun _ => hx.bind fun result => ?_
  cases result with
  | none => exact (hI.keepsSeek start).bind fun _ => (hI.report _ _ _).bind fun _ => .pure _
  | some value => exact .bind (fun _ _ h => h) fun stop => (hI.report _ _ _).bind fun _ => .pure _

end Tracing

/-! The calls that may raise a failure, each with the moment after it and what follows. -/

section Failures

variable {next : WatchedM τ V}

/-- After a failure the moment is noted with what was raised. -/
theorem failThen (hI : Invariant I) (e : Expectation) (hnext : Keeps (I depth) next) :
    Keeps (I depth) (do
      let pos ← ParseT.pos
      ParseT.fail e
      WatchedM.note depth (some (pos, e))
      next) := by
  intro s h hs
  exact hnext _ _ (hI.fail e hs)

/-- After a leaf the moment is noted, with a failure if nothing was taken. -/
theorem consumeThen (hI : Invariant I) (e : Expectation) {next : Option String → WatchedM τ V}
    (hnext : ∀ taken, Keeps (I depth) (next taken)) :
    Keeps (I depth) (do
      let pos ← ParseT.pos
      let taken ← ParseT.consume e
      WatchedM.note depth (if taken.isNone then some (pos, e) else none)
      next taken) := by
  intro s h hs
  rw [WatchedM.runFrom_bind, WatchedM.runFrom_pos]
  dsimp only
  rw [WatchedM.runFrom_bind, ParseT.consume, WatchedM.runFrom_ofStep]
  cases hstep : s.consume? e with
  | none => exact hs
  | some r =>
      obtain ⟨taken, s'⟩ := r
      obtain ⟨rest, -, ⟨text, -, rfl, rfl⟩ | ⟨-, rfl, rfl⟩⟩ := State.consume?_cases hstep
      · exact hnext _ _ _ (hI.quiet (hI.seek _ hs))
      · exact hnext _ _ _ (hI.fail e hs)

/-- After a named body the moment is noted, with a failure of its own if there is no value. -/
theorem namedThen (hI : Invariant I) (description : String) {x : WatchedM τ (Option V)}
    (hx : Keeps (I (depth + 1)) x) {next : Except TraceError (Option V) → WatchedM τ β}
    (hnext : ∀ answer, Keeps (I depth) (next answer)) :
    Keeps (I depth) (do
      let answer ← attempt (ParseT.named description x)
      let pos ← ParseT.pos
      WatchedM.note depth (if foundNothing answer then some (pos, .other description) else none)
      next answer) := by
  intro s h hs
  have hsilenced := hI.silenced hx s h hs
  rw [WatchedM.runFrom_bind, runFrom_attempt, ParseT.named, WatchedM.runFrom_bind]
  rcases hr : WatchedM.runFrom s h (ParseT.silenced x) with ⟨⟨halt | result, s'⟩, h'⟩
  · rw [hr] at hsilenced
    cases halt with
    | refused e => exact hnext _ _ _ (hI.quiet hsilenced)
    | badOffset => exact hsilenced
    | outOfFuel => exact hsilenced
  · rw [hr] at hsilenced
    cases result with
    | none =>
        refine hnext _ _ _ ?_
        show I depth (s'.fail _) (h' ++ [⟨depth, some ((s'.fail _).pos, _), s'.fail _⟩])
        rw [State.pos_fail]
        exact hI.fail (.other description) hsilenced
    | some value => exact hnext _ _ _ (hI.quiet hsilenced)

end Failures

/-- A body keeps the invariant from its beginning on. -/
theorem begun (hI : Invariant I) {body : WatchedM τ α} (hbody : Keeps (I depth) body) :
    Keeps (I depth) (begun depth body) :=
  hI.note.bind fun _ => hbody

/-- Every client keeps the invariant. -/
theorem run [Tracer τ V] (hI : Invariant I) (c : Client τ V) : Keeps (I depth) (c.run depth) := by
  induction c generalizing depth with
  | done ending =>
      cases ending with
      | ok result => exact .pure _
      | error e => exact .throw _
  | look next ih => exact .bind (fun _ _ h => h) fun s => ih s
  | seek pos next ih => exact (hI.keepsSeek pos).bind fun _ => hI.note.bind fun _ => ih
  | fail e next ih => exact hI.failThen e ih
  | consume e next ih => exact hI.consumeThen e fun taken => ih taken
  | position offset next ih =>
      exact (hI.keepsPosition offset).bind fun p => hI.note.bind fun _ => ih p
  | location start stop next ih =>
      exact (hI.keepsLocation start stop).bind fun l => hI.note.bind fun _ => ih l
  | error next ih => exact hI.keepsError.bind fun e => hI.note.bind fun _ => ih e
  | silenced body next ihbody ih =>
      exact (hI.silenced (hI.begun ihbody)).attempt.bind fun answer =>
        hI.note.bind fun _ => ih answer
  | rule name body next ihbody ih =>
      exact (hI.rule name (hI.begun ihbody)).attempt.bind fun answer =>
        hI.note.bind fun _ => ih answer
  | named description body next ihbody ih =>
      exact hI.namedThen description (hI.begun ihbody) fun answer => ih answer

end Invariant

end Client

end PegGen
