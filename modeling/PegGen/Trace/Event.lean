import PegGen.Position

/-!
# Trace events

Every invocation of a rule reports an `enter` event when it begins, and a `matched` or a `failed`
event when it is done.  Only a match carries a value.  `Event.ofTag?` reads an event from its tag,
and `TraceError` lists what can be wrong with an event.
-/

namespace PegGen

/-- What can be wrong with an event. -/
inductive TraceError where
  /-- The tag is not that of an event. -/
  | unknownEvent (tag : String)
  /-- A match without a value. -/
  | missingResult (rule : String)
  /-- A rule is closed that was not entered. -/
  | unbalanced (rule : String)
deriving DecidableEq, Repr, Inhabited

/-- The error in words. -/
def TraceError.message : TraceError → String
  | .unknownEvent tag => "invalid event type: " ++ tag
  | .missingResult rule => "rule.match for " ++ rule ++ " has no result"
  | .unbalanced rule => rule ++ " closed without a matching rule.enter"

/-- The three events of a rule invocation. -/
inductive EventKind where
  | enter | matched | failed
deriving DecidableEq, Repr, Inhabited

namespace EventKind

/-- The tag an event is known by. -/
def tag : EventKind → String
  | .enter => "rule.enter"
  | .matched => "rule.match"
  | .failed => "rule.fail"

/-- The event with a given tag. -/
def ofTag? (tag : String) : Except TraceError EventKind :=
  if tag = EventKind.enter.tag then .ok .enter
  else if tag = EventKind.matched.tag then .ok .matched
  else if tag = EventKind.failed.tag then .ok .failed
  else .error (.unknownEvent tag)

@[simp] theorem ofTag?_tag (k : EventKind) : ofTag? k.tag = .ok k := by
  cases k <;> simp [ofTag?, tag]

end EventKind

/-- What a rule invocation reports. -/
inductive Event (V : Type) where
  /-- The rule begins at a point. -/
  | enter (rule : String) (location : Location)
  /-- The rule matched a part of the input and has a value. -/
  | matched (rule : String) (location : Location) (result : V)
  /-- The rule failed, and nothing is consumed. -/
  | failed (rule : String) (location : Location)
deriving DecidableEq, Repr

namespace Event

variable {V : Type}

/-- Which of the three events it is. -/
def kind : Event V → EventKind
  | .enter .. => .enter
  | .matched .. => .matched
  | .failed .. => .failed

/-- The rule that reports. -/
def rule : Event V → String
  | .enter rule _ => rule
  | .matched rule _ _ => rule
  | .failed rule _ => rule

/-- Where the rule is. -/
def location : Event V → Location
  | .enter _ location => location
  | .matched _ location _ => location
  | .failed _ location => location

/-- The value of a match. -/
def result? : Event V → Option V
  | .matched _ _ result => some result
  | _ => none

/-- The event with a given tag.  A match needs a value, the other events ignore it. -/
def ofTag? (tag rule : String) (location : Location) (result : Option V) :
    Except TraceError (Event V) :=
  match EventKind.ofTag? tag with
  | .error e => .error e
  | .ok .enter => .ok (.enter rule location)
  | .ok .failed => .ok (.failed rule location)
  | .ok .matched =>
      match result with
      | some value => .ok (.matched rule location value)
      | none => .error (.missingResult rule)

end Event

end PegGen
