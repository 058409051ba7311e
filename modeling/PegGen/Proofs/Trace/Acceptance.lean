import PegGen.Trace.Tracer

/-!
# What tracers accept

A tracer that is told of events moves from one to the next (`Tracer.told`).  It may accept all that
it is ever told (`Tracer.AcceptsAll`), or a number of events and then no more
(`Tracer.AcceptsOnly`).

A parse stops at the first event that its tracer refuses.  `Tracer.offer` says what comes of that:
the refusal, if there is one, and the tracer then.  Without a tracer nothing is refused.
-/

namespace PegGen

namespace Tracer

variable {τ V : Type} [Tracer τ V] {t : τ} {E F : List (Event V)} {n : Nat}

/-- The tracer after it was told of events, whatever its verdicts were. -/
def told (t : τ) (events : List (Event V)) : τ :=
  events.foldl (fun t event => (trace t event).next) t

/-- The tracer accepts the events, told one after the other. -/
def Accepts (t : τ) : List (Event V) → Prop
  | [] => True
  | event :: events => (trace t event).verdict = .ok () ∧ Accepts (trace t event).next events

/-- The tracer accepts everything that it will ever be told. -/
def AcceptsAll (V : Type) [Tracer τ V] (t : τ) : Prop :=
  ∀ events : List (Event V), Accepts t events

/-- The tracer accepts the next `n` events and refuses the one after them, whatever they are. -/
def AcceptsOnly (V : Type) [Tracer τ V] : Nat → τ → Prop
  | 0, t => ∀ event : Event V, ∃ e, (trace t event).verdict = .error e
  | n + 1, t => ∀ event : Event V,
      (trace t event).verdict = .ok () ∧ AcceptsOnly V n (trace t event).next

/-- What comes of offering events to a tracer, if there is one, up to the first that it refuses. -/
def offer : Option τ → List (Event V) → Except TraceError Unit × Option τ
  | none, _ => (.ok (), none)
  | some t, [] => (.ok (), some t)
  | some t, event :: events =>
      match (trace t event).verdict with
      | .ok () => offer (some (trace t event).next) events
      | .error e => (.error e, some (trace t event).next)

/-! ## Told of events -/

@[simp] theorem told_nil (t : τ) : told t ([] : List (Event V)) = t := rfl

@[simp] theorem told_cons (t : τ) (event : Event V) (events : List (Event V)) :
    told t (event :: events) = told (trace t event).next events := rfl

@[simp] theorem told_append (t : τ) (E F : List (Event V)) :
    told t (E ++ F) = told (told t E) F :=
  List.foldl_append

/-- Events are accepted in two portions, the second by what the first has left of the tracer. -/
theorem accepts_append : Accepts t (E ++ F) ↔ Accepts t E ∧ Accepts (told t E) F := by
  induction E generalizing t with
  | nil => simp [Accepts]
  | cons event E ih => simp [Accepts, ih, and_assoc]

/-- Any next event is accepted. -/
theorem AcceptsAll.verdict (h : AcceptsAll V t) (event : Event V) :
    (trace t event).verdict = .ok () :=
  (h [event]).1

/-- After an event everything is accepted still. -/
theorem AcceptsAll.next (h : AcceptsAll V t) (event : Event V) :
    AcceptsAll V (trace t event).next :=
  fun events => (h (event :: events)).2

/-- As many events are accepted as the tracer accepts at all. -/
theorem AcceptsOnly.accepts (h : AcceptsOnly V n t) (hE : E.length ≤ n) : Accepts t E := by
  induction E generalizing t n with
  | nil => trivial
  | cons event E ih =>
      cases n with
      | zero => simp at hE
      | succ n =>
          obtain ⟨hverdict, hnext⟩ := h event
          exact ⟨hverdict, ih hnext (by simpa using hE)⟩

/-- The event after the last that is accepted is refused. -/
theorem AcceptsOnly.refuses (h : AcceptsOnly V n t) (hE : E.length = n) (event : Event V) :
    ∃ e, (trace (told t E) event).verdict = .error e := by
  induction E generalizing t n with
  | nil =>
      subst hE
      exact h event
  | cons first E ih =>
      subst hE
      exact ih (h first).2 rfl

/-! ## Offered events -/

@[simp] theorem offer_none (E : List (Event V)) : offer (none : Option τ) E = (.ok (), none) := by
  cases E <;> rfl

@[simp] theorem offer_nil (tracer : Option τ) :
    offer tracer ([] : List (Event V)) = (.ok (), tracer) := by
  cases tracer <;> rfl

/-- Events are offered in two portions, unless one of the first is refused. -/
theorem offer_append (tracer : Option τ) (E F : List (Event V)) :
    offer tracer (E ++ F) =
      match offer tracer E with
      | (.ok (), tracer') => offer tracer' F
      | (.error e, tracer') => (.error e, tracer') := by
  cases tracer with
  | none => simp
  | some t =>
      induction E generalizing t with
      | nil => simp
      | cons event E ih =>
          rw [List.cons_append, offer, offer]
          cases (trace t event).verdict with
          | ok => exact ih _
          | error e => rfl

theorem offer_append_of_ok {tracer tracer' : Option τ} (h : offer tracer E = (.ok (), tracer'))
    (F : List (Event V)) : offer tracer (E ++ F) = offer tracer' F := by
  rw [offer_append, h]

theorem offer_append_of_error {tracer tracer' : Option τ} {e : TraceError}
    (h : offer tracer E = (.error e, tracer')) (F : List (Event V)) :
    offer tracer (E ++ F) = (.error e, tracer') := by
  rw [offer_append, h]

/-- Events that are accepted are all offered. -/
theorem Accepts.offer (h : Accepts t E) : offer (some t) E = (.ok (), some (told t E)) := by
  induction E generalizing t with
  | nil => rfl
  | cons event E ih =>
      rw [Tracer.offer, h.1]
      exact ih h.2

/-- Events are offered up to the first that is refused. -/
theorem Accepts.offer_refused (h : Accepts t E) {event : Event V} {e : TraceError}
    (hevent : (trace (told t E) event).verdict = .error e) (F : List (Event V)) :
    Tracer.offer (some t) (E ++ event :: F) = (.error e, some (told t (E ++ [event]))) := by
  rw [offer_append, h.offer]
  simp [Tracer.offer, hevent]

end Tracer

/-! ## The tracers at hand -/

open Tracer

variable {V : Type}

/-- A recorder accepts everything. -/
theorem Recorder.acceptsAll (t : Recorder V) : AcceptsAll V t := by
  intro events
  induction events generalizing t with
  | nil => trivial
  | cons event events ih => exact ⟨rfl, ih _⟩

/-- A recorder keeps what it is told. -/
@[simp] theorem Recorder.told_eq (t : Recorder V) (events : List (Event V)) :
    told t events = ⟨t.events ++ events⟩ := by
  induction events generalizing t with
  | nil => simp
  | cons event events ih =>
      rw [told_cons, ih]
      simp [trace]

/-- A quota accepts as many events as it has left. -/
theorem Quota.acceptsOnly (t : Quota V) : AcceptsOnly V t.left t := by
  obtain ⟨left, offered⟩ := t
  induction left generalizing offered with
  | zero => exact fun event => ⟨_, rfl⟩
  | succ left ih => exact fun event => ⟨rfl, ih _⟩

/-- A quota keeps what it is offered, be it accepted or not. -/
theorem Quota.offered_told (t : Quota V) (events : List (Event V)) :
    (told t events).offered = t.offered ++ events := by
  induction events generalizing t with
  | nil => simp
  | cons event events ih =>
      obtain ⟨left, offered⟩ := t
      rw [told_cons, ih]
      cases left with
      | zero => simp [trace]
      | succ left => simp [trace]

end PegGen
