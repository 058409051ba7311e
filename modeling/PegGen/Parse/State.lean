import PegGen.Log
import PegGen.Ordered.Set
import PegGen.SyntaxError
import PegGen.Text.Bytes

/-!
# Parse states

A parse state knows the input, the current byte offset, the furthest failure so far with what was
expected there, how many silencers are active, and the tracer if there is one.  It also caches the
last position it computed, so that positions asked for in ascending order cost one pass over the
input.

The functions of this module are the elementary steps of a parse.  A step that reads the input at
an offset has no result when the offset is not that of a character of the input.
-/

namespace PegGen

/-- The furthest offset at which a match failed, and what was expected there. -/
structure Furthest where
  /-- The offset. -/
  pos : Nat := 0
  /-- What was expected, each once, in the order it was first reported. -/
  expected : OrderedSet Expectation := ∅
deriving DecidableEq

namespace Furthest

/-- Take note of a failure: a nearer one is forgotten, a further one replaces what is known. -/
def record (f : Furthest) (pos : Nat) (e : Expectation) : Furthest :=
  if pos < f.pos then f
  else if f.pos < pos then ⟨pos, OrderedSet.empty.insert e⟩
  else ⟨f.pos, f.expected.insert e⟩

end Furthest

/-- The state of a parse with a tracer of type `τ`. -/
structure State (τ : Type) where
  /-- The whole input. -/
  input : List Char
  /-- The current byte offset. -/
  pos : Nat := 0
  /-- The furthest failure so far. -/
  furthest : Furthest := {}
  /-- The number of active silencers. -/
  silencers : Nat := 0
  /-- The last position that was computed, with its offset. -/
  cache : Nat × Position := (0, Position.start)
  /-- The tracer, if there is one. -/
  tracer : Option τ := none
  /-- What was noted so far. -/
  log : List LogRecord := []

namespace State

variable {τ : Type}

/-- The state in which a parse begins. -/
def init (input : String) (tracer : Option τ) : State τ :=
  { input := input.toList, tracer := tracer }

/-- There is a tracer. -/
def isTracing (s : State τ) : Bool :=
  s.tracer.isSome

/-- The input from the current offset on. -/
def rest? (s : State τ) : Option (List Char) :=
  Text.dropBytes? s.pos s.input

/-- The position of a byte offset.  An offset past the end stands for the end.  The scan resumes
from the cached position unless it has to go back. -/
def position? (offset : Nat) (s : State τ) : Option (Position × State τ) :=
  let offset := min offset (Text.byteLength s.input)
  let origin := if offset < s.cache.1 then (0, Position.start) else s.cache
  (Text.sliceBytes? origin.1 offset s.input).map fun scanned =>
    let position := { scanned.foldl Position.advance origin.2 with offset := some offset }
    (position, { s with cache := (offset, position) })

/-- The location between two byte offsets. -/
def location? (start stop : Nat) (s : State τ) : Option (Location × State τ) :=
  (s.position? start).bind fun (first, s) =>
    (s.position? stop).map fun (last, s) => (⟨first, last⟩, s)

/-- Take note that `e` would have matched at the current offset, unless failures are silenced. -/
def fail (e : Expectation) (s : State τ) : State τ :=
  if s.silencers = 0 then { s with furthest := s.furthest.record s.pos e } else s

/-- Match an expectation at the current offset.  A match moves past what it accepts, anything else
is a failure. -/
def consume? (e : Expectation) (s : State τ) : Option (Option String × State τ) :=
  s.rest?.map fun rest =>
    match e.matched? rest with
    | some text => (some (String.ofList text), { s with pos := s.pos + Text.byteLength text })
    | none => (none, s.fail e)

/-- Write a line to the log. -/
def note (level : LogLevel) (message : String) (s : State τ) : State τ :=
  { s with log := s.log ++ [⟨level, message⟩] }

/-- The syntax error at the furthest failure.  It covers the character that was found there. -/
def error? (s : State τ) : Option (SyntaxError × State τ) :=
  (Text.dropBytes? s.furthest.pos s.input).bind fun rest =>
    let found := rest.head?
    (s.location? s.furthest.pos (s.furthest.pos + Text.byteLength found.toList)).map
      fun (location, s) =>
        let expected := s.furthest.expected.toList
        (SyntaxError.ofFailure expected (found.map String.singleton) location,
          s.note .debug ("parse failed at " ++ location.start.render ++ " with " ++
            toString expected.length ++ " expectation(s)"))

/-- The result of a parse whose start rule gave `result`.  A value is the result if the whole input
is consumed.  Otherwise the parse fails with the error at the furthest failure, where a value
before the end of the input is a failure to find the end. -/
def finish? {V : Type} (result : Option V) (s : State τ) :
    Option (Except SyntaxError V × State τ) :=
  match result with
  | some value =>
      if s.pos = Text.byteLength s.input then some (.ok value, s)
      else (s.fail .endOfInput).error?.map fun (e, s) => (.error e, s)
  | none => s.error?.map fun (e, s) => (.error e, s)

end State

end PegGen
