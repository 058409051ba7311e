import PegGen.Trace.Tracer

/-!
# Replaying events

A list of events in textual form is read and told to a line tracer, one after the other.  An event
that cannot be read is not told.
-/

namespace PegGen

/-- An event in textual form. -/
structure TaggedEvent (V : Type) where
  /-- The tag. -/
  tag : String
  /-- The rule. -/
  rule : String
  /-- The location. -/
  location : Location
  /-- The value, if there is one. -/
  result : Option V

/-- What became of an event. -/
structure Replayed (V : Type) where
  /-- The event, if it could be read and was accepted. -/
  event : Except TraceError (Event V)
  /-- The tracer after it. -/
  tracer : LineTracer
  /-- What went to the log. -/
  notes : List LogRecord

namespace LineTracer

variable {V : Type}

/-- Read an event and tell it to the tracer. -/
def replay (t : LineTracer) (e : TaggedEvent V) : Replayed V :=
  match Event.ofTag? e.tag e.rule e.location e.result with
  | .error error => ⟨.error error, t, []⟩
  | .ok event =>
      let reply := t.trace event
      ⟨reply.verdict.map fun _ => event, reply.next, reply.notes⟩

/-- Read events and tell them to the tracer. -/
def replayAll (t : LineTracer) : List (TaggedEvent V) → List (Replayed V)
  | [] => []
  | e :: es => t.replay e :: (t.replay e).tracer.replayAll es

end LineTracer

end PegGen
