import PegGen.Proofs.Parse.Positions
import PegGen.Proofs.Trace.Acceptance

/-!
# Rule calls and their events

A call of a rule is told to the tracer when it begins and again when it is closed, and between the
two come the events of the calls that were made inside.  A call that halts is never closed.

So the depth of a `LineTracer` grows with every call that was left open, and is otherwise what it
was before.  When a call is closed the depth counts the call itself at least, so the tracer accepts
the event (`LineTracer.admits_eventsAll`).
-/

namespace PegGen

open Text Tracer

variable {V : Type}

/-- The location between two offsets, counted from the start of the input.  An offset past the end
stands for the end. -/
def Location.between (input : List Char) (start stop : Nat) : Location :=
  ⟨.ofOffset input (min start (byteLength input)), .ofOffset input (min stop (byteLength input))⟩

/-- How the call of a rule ends. -/
inductive CallEnding (V : Type) where
  /-- With a value, at an offset. -/
  | matched (value : V) (stop : Nat)
  /-- Without a value. -/
  | failed
  /-- Not at all, because of a halt. -/
  | halted (halt : Halt)
deriving DecidableEq, Repr

/-- A call of a rule. -/
structure Call (V : Type) where
  /-- The rule. -/
  rule : String
  /-- The offset where it was called. -/
  start : Nat
  /-- The calls that its body made, one after the other. -/
  inner : List (Call V)
  /-- How it ended. -/
  ending : CallEnding V

namespace CallEnding

/-- The event that closes a call. -/
def events (input : List Char) (rule : String) (start : Nat) : CallEnding V → List (Event V)
  | .matched value stop => [.matched rule (.between input start stop) value]
  | .failed => [.failed rule (.between input start start)]
  | .halted _ => []

/-- The halt that leaves a call open. -/
def halts : CallEnding V → List Halt
  | .matched .. | .failed => []
  | .halted halt => [halt]

/-- The ending of a call that returns. -/
def ofResult (stop : Nat) : Option V → CallEnding V
  | some value => .matched value stop
  | none => .failed

theorem halts_ofResult (stop : Nat) (result : Option V) :
    (ofResult stop result).halts = [] := by
  cases result <;> rfl

end CallEnding

namespace Call

mutual

/-- What the tracer is told of a call. -/
def events (input : List Char) : Call V → List (Event V)
  | ⟨rule, start, inner, ending⟩ =>
      .enter rule (.between input start start) ::
        (eventsAll input inner ++ ending.events input rule start)

/-- What the tracer is told of several calls. -/
def eventsAll (input : List Char) : List (Call V) → List (Event V)
  | [] => []
  | call :: calls => events input call ++ eventsAll input calls

end

mutual

/-- The halts that leave a call open, or one inside it. -/
def halts : Call V → List Halt
  | ⟨_, _, inner, ending⟩ => haltsAll inner ++ ending.halts

/-- The halts that leave calls open. -/
def haltsAll : List (Call V) → List Halt
  | [] => []
  | call :: calls => halts call ++ haltsAll calls

end

theorem eventsAll_eq_flatMap (input : List Char) (calls : List (Call V)) :
    eventsAll input calls = calls.flatMap (events input) := by
  induction calls with
  | nil => rfl
  | cons call calls ih => rw [eventsAll, ih, List.flatMap_cons]

theorem haltsAll_eq_flatMap (calls : List (Call V)) : haltsAll calls = calls.flatMap halts := by
  induction calls with
  | nil => rfl
  | cons call calls ih => rw [haltsAll, ih, List.flatMap_cons]

@[simp] theorem eventsAll_append (input : List Char) (calls calls' : List (Call V)) :
    eventsAll input (calls ++ calls') = eventsAll input calls ++ eventsAll input calls' := by
  simp [eventsAll_eq_flatMap]

@[simp] theorem haltsAll_append (calls calls' : List (Call V)) :
    haltsAll (calls ++ calls') = haltsAll calls ++ haltsAll calls' := by
  simp [haltsAll_eq_flatMap]

/-- A call that returns leaves only calls inside it open. -/
theorem haltsAll_returned (rule : String) (start : Nat) (inner : List (Call V)) (stop : Nat)
    (result : Option V) :
    haltsAll [⟨rule, start, inner, .ofResult stop result⟩] = haltsAll inner := by
  rw [haltsAll, haltsAll, halts, CallEnding.halts_ofResult, List.append_nil, List.append_nil]

end Call

/-! ## Lines -/

namespace LineTracer

@[simp] theorem verdict_write (t : LineTracer) (indent depth : Nat) (event : Event V) :
    (t.write indent depth event).verdict = .ok () := by
  rw [write]
  split <;> rfl

@[simp] theorem depth_write (t : LineTracer) (indent depth : Nat) (event : Event V) :
    (t.write indent depth event).next.depth = depth := by
  rw [write]
  split <;> rfl

/-- The tracer accepts the events, and then has a number of open rules more. -/
def Admits (t : LineTracer) (events : List (Event V)) (n : Nat) : Prop :=
  Accepts t events ∧ (told t events).depth = t.depth + n

theorem Admits.append {t : LineTracer} {E F : List (Event V)} {n k : Nat} (hE : t.Admits E n)
    (hF : (told t E).Admits F k) : t.Admits (E ++ F) (n + k) := by
  refine ⟨accepts_append.2 ⟨hE.1, hF.1⟩, ?_⟩
  rw [told_append, hF.2, hE.2, Nat.add_assoc]

theorem verdict_enter (t : LineTracer) (rule : String) (location : Location) :
    (Tracer.trace t (.enter rule location : Event V)).verdict = .ok () :=
  t.verdict_write _ _ _

/-- While a call is open the depth counts it. -/
theorem Admits.inside (t : LineTracer) (rule : String) (location : Location) {E : List (Event V)}
    {n : Nat} (hE : (Tracer.trace t (.enter rule location : Event V)).next.Admits E n) :
    Accepts t (.enter rule location :: E) ∧
      (told t (.enter rule location :: E)).depth = t.depth + n + 1 := by
  have hdepth : (Tracer.trace t (.enter rule location : Event V)).next.depth = t.depth + 1 :=
    t.depth_write _ _ _
  refine ⟨⟨t.verdict_enter rule location, hE.1⟩, ?_⟩
  rw [told_cons, hE.2, hdepth, Nat.add_right_comm]

theorem accepts_close {t : LineTracer} {n : Nat} (ht : t.depth = n + 1) {event : Event V}
    (hkind : event.kind ≠ .enter) : Accepts t [event] ∧ (told t [event]).depth = n := by
  have hclose : Tracer.trace t event = t.write n n event := by
    show LineTracer.trace t event = _
    rw [LineTracer.trace, ht]
    cases h : event.kind with
    | enter => exact absurd h hkind
    | matched => rfl
    | failed => rfl
  rw [Accepts, told_cons, hclose]
  exact ⟨⟨t.verdict_write n n event, trivial⟩, t.depth_write n n event⟩

/-- A call that is open can be closed, and then counts no more. -/
theorem accepts_closing {t : LineTracer} {n : Nat} (ht : t.depth = n + 1) (input : List Char)
    (rule : String) (start : Nat) (ending : CallEnding V) :
    Accepts t (ending.events input rule start) ∧
      (told t (ending.events input rule start)).depth = n + ending.halts.length := by
  cases ending with
  | matched value stop => exact accepts_close ht nofun
  | failed => exact accepts_close ht nofun
  | halted halt => exact ⟨trivial, ht⟩

mutual

/-- The tracer accepts all that it is told of a call, and the call counts if it was left open. -/
theorem admits_events (t : LineTracer) (input : List Char) :
    ∀ call : Call V, t.Admits (call.events input) call.halts.length
  | ⟨rule, start, inner, ending⟩ => by
      obtain ⟨hinner, hopen⟩ :=
        Admits.inside t rule (.between input start start) (admits_eventsAll _ input inner)
      obtain ⟨haccepts, hdepth⟩ := accepts_closing hopen input rule start ending
      rw [← told_append] at hdepth
      rw [Call.events, Call.halts, List.length_append]
      exact ⟨accepts_append.2 ⟨hinner, haccepts⟩, hdepth.trans (Nat.add_assoc ..)⟩

/-- The same for calls one after the other. -/
theorem admits_eventsAll (t : LineTracer) (input : List Char) :
    ∀ calls : List (Call V), t.Admits (Call.eventsAll input calls) (Call.haltsAll calls).length
  | [] => ⟨trivial, rfl⟩
  | call :: calls => by
      rw [Call.eventsAll, Call.haltsAll, List.length_append]
      exact (t.admits_events input call).append (admits_eventsAll _ input calls)

end

end LineTracer

end PegGen
