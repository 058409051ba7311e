import PegGen.Log
import PegGen.Text.Lines
import PegGen.Trace.Event

/-!
# Tracers

A tracer is told of every event and may refuse one, which stops the parse.  It is a state that
moves from event to event.  Three tracers are given here.

* `LineTracer` writes a line per event, indented by the number of rules that are open, and refuses
  to close a rule when none is open.  It keeps its lines, or writes them to the log instead.
* `Recorder` accepts every event and keeps it.
* `Quota` accepts a number of events and refuses every one after that.
-/

namespace PegGen

/-- What a tracer does with an event. -/
structure Reply (τ : Type) where
  /-- The tracer after the event. -/
  next : τ
  /-- Whether the event is accepted. -/
  verdict : Except TraceError Unit
  /-- What goes to the log. -/
  notes : List LogRecord := []

/-- A state that is told of events. -/
class Tracer (τ V : Type) where
  /-- Tell the tracer of an event. -/
  trace : τ → Event V → Reply τ

variable {V : Type}

/-! ## Lines -/

/-- Where the lines of a `LineTracer` go. -/
inductive Sink where
  /-- They are kept. -/
  | kept (lines : List String)
  /-- They go to the log. -/
  | logged
deriving DecidableEq, Repr, Inhabited

/-- The kept lines. -/
def Sink.lines : Sink → List String
  | .kept lines => lines
  | .logged => []

/-- Writes a line per event. -/
structure LineTracer where
  /-- Where the lines go. -/
  sink : Sink
  /-- The number of rules that are open. -/
  depth : Nat := 0
deriving DecidableEq, Repr, Inhabited

namespace LineTracer

/-- The line of an event when `depth` rules are open around it. -/
def line (depth : Nat) (event : Event V) : String :=
  event.location.render ++ " " ++ Text.padRight 10 event.kind.tag ++ " " ++
    Text.repeated (2 * depth) ' ' ++ event.rule

/-- Write the line of an event and go on at another depth. -/
def write (t : LineTracer) (indent depth : Nat) (event : Event V) : Reply LineTracer :=
  match t.sink with
  | .kept lines => ⟨⟨.kept (lines ++ [line indent event]), depth⟩, .ok (), []⟩
  | .logged => ⟨⟨.logged, depth⟩, .ok (), [⟨.info, line indent event⟩]⟩

/-- A rule's closing line stands under its opening one, and what happens between is indented. -/
def trace (t : LineTracer) (event : Event V) : Reply LineTracer :=
  match event.kind with
  | .enter => t.write t.depth (t.depth + 1) event
  | .matched | .failed =>
      match t.depth with
      | 0 => ⟨t, .error (.unbalanced event.rule), []⟩
      | depth + 1 => t.write depth depth event

instance : Tracer LineTracer V := ⟨trace⟩

end LineTracer

/-! ## Recording and refusing -/

/-- Keeps every event. -/
structure Recorder (V : Type) where
  /-- The events so far. -/
  events : List (Event V) := []
deriving Repr, Inhabited

instance : Tracer (Recorder V) V where
  trace t event := ⟨⟨t.events ++ [event]⟩, .ok (), []⟩

/-- Accepts a number of events, and keeps all that it is offered. -/
structure Quota (V : Type) where
  /-- The number of events that it will still accept. -/
  left : Nat
  /-- The events that it was offered, the refused ones too. -/
  offered : List (Event V) := []
deriving Repr, Inhabited

instance : Tracer (Quota V) V where
  trace t event :=
    match t.left with
    | 0 => ⟨⟨0, t.offered ++ [event]⟩, .error (.unknownEvent event.kind.tag), []⟩
    | left + 1 => ⟨⟨left, t.offered ++ [event]⟩, .ok (), []⟩

/-! ## Tests -/

example : LineTracer.line 1 (Event.failed (V := Unit) "bar" (.point ⟨1, 2, none⟩)) =
    "1:2-1:2 rule.fail    bar" := by decide

end PegGen
