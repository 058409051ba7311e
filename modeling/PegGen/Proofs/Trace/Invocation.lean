import PegGen.Proofs.Parse.Discipline
import PegGen.Proofs.Trace.Calls

/-!
# Rule invocations under a tracer

What comes of the invocation of a rule when there is a tracer.  It may begin at a bad offset, be
refused, or have a body that halts.  Otherwise the tracer is told how it ended (`RuleRun`,
`closing_cases`), unless that is at a bad offset.

Offsets past the end of the input are taken for its end, so what a tracer is told has a location as
soon as both ends have a position (`HasPosition`).
-/

namespace PegGen

open Text WatchedM Tracer

variable {τ V α : Type}

/-! ## Traced states -/

/-- A state over the input with this tracer. -/
structure State.Traced (input : List Char) (t : τ) (s : State τ) : Prop extends s.Counts input where
  tracer : s.tracer = some t

namespace State.Traced

variable {input : List Char} {t : τ} {s s' : State τ}

theorem goTo (hs : s.Traced input t) (pos : Nat) : Traced input t { s with pos := pos } :=
  ⟨⟨hs.input, hs.cache.isBoundary, hs.cache.position⟩, hs.tracer⟩

theorem silence (hs : s.Traced input t) : s.silence.Traced input t :=
  ⟨⟨hs.input, hs.cache.isBoundary, hs.cache.position⟩, hs.tracer⟩

theorem unsilence (hs : s.Traced input t) : s.unsilence.Traced input t :=
  ⟨⟨hs.input, hs.cache.isBoundary, hs.cache.position⟩, hs.tracer⟩

theorem fail (hs : s.Traced input t) (e : Expectation) : (s.fail e).Traced input t :=
  ⟨hs.toCounts.fail e, (s.tracer_fail e).trans hs.tracer⟩

/-- A leaf reports to no tracer. -/
theorem consume? (hs : s.Traced input t) {e : Expectation} {r : Option String}
    (h : s.consume? e = some (r, s')) : s'.Traced input t := by
  obtain ⟨rest, -, ⟨text, -, -, rfl⟩ | ⟨-, -, rfl⟩⟩ := State.consume?_cases h
  · exact hs.goTo _
  · exact hs.fail e

theorem position? (hs : s.Traced input t) {offset : Nat} {p : Position}
    (h : s.position? offset = some (p, s')) : s'.Traced input t := by
  have hcounts := hs.toCounts.position? h
  obtain ⟨cache, rfl⟩ := State.position?_cases h
  exact ⟨hcounts, hs.tracer⟩

theorem location? (hs : s.Traced input t) {start stop : Nat} {l : Location}
    (h : s.location? start stop = some (l, s')) : s'.Traced input t := by
  obtain ⟨s₁, hfirst, hlast⟩ := State.positions_of_location? h
  exact (hs.position? hfirst).position? hlast

theorem error? (hs : s.Traced input t) {e : SyntaxError} (h : s.error? = some (e, s')) :
    s'.Traced input t := by
  obtain ⟨start, stop, s₁, log, hlocation, rfl⟩ := State.location_of_error? h
  have hs₁ := hs.location? hlocation
  exact ⟨⟨hs₁.input, hs₁.cache.isBoundary, hs₁.cache.position⟩, hs₁.tracer⟩

end State.Traced

/-! ## Reports -/

/-- The offset, brought down to the end of the input, is a boundary. -/
def HasPosition (input : List Char) (offset : Nat) : Prop :=
  IsBoundary (min offset (byteLength input)) input

instance (input : List Char) (offset : Nat) : Decidable (HasPosition input offset) :=
  inferInstanceAs (Decidable (IsBoundary _ input))

section Reports

variable {input : List Char} {t : τ} {s s' : State τ} {h h' : List (Moment τ)} {start stop : Nat}

/-- Between two offsets with positions there is a location. -/
theorem State.Counts.location?_eq_some (hs : s.Counts input) (hstart : HasPosition input start)
    (hstop : HasPosition input stop) :
    ∃ cache, s.location? start stop =
      some (.between input start stop, { s with cache := cache }) := by
  obtain rfl := hs.input
  rw [State.location?, State.position?_of_isBoundary hs.cache rfl hstart, Option.bind_some]
  show ∃ cache, Option.map _ (State.position? stop _) = _
  rw [State.position?_of_isBoundary (.ofOffset hstart) rfl hstop]
  exact ⟨_, rfl⟩

/-- If one offset has no position there is none. -/
theorem State.Counts.location?_eq_none (hs : s.Counts input)
    (hastray : ¬ (HasPosition input start ∧ HasPosition input stop)) :
    s.location? start stop = none := by
  obtain rfl := hs.input
  cases hlocation : s.location? start stop with
  | none => rfl
  | some r =>
      obtain ⟨s₁, hfirst, hlast⟩ := State.positions_of_location? hlocation
      have hstop := State.isBoundary_of_position? hlast
      rw [(hs.position? hfirst).input] at hstop
      exact absurd ⟨State.isBoundary_of_position? hfirst, hstop⟩ hastray

variable [Tracer τ V]

/-- A tracer is told of the event, and its verdict is the result. -/
theorem WatchedM.runFrom_report (hs : s.Traced input t) (hstart : HasPosition input start)
    (hstop : HasPosition input stop) (event : Location → Event V) (h : List (Moment τ)) :
    ∃ s', runFrom s h (ParseT.report start stop event) =
        (((trace t (event (.between input start stop))).result, s'), h) ∧
      s'.Traced input (trace t (event (.between input start stop))).next ∧ s'.pos = s.pos := by
  obtain ⟨cache, hlocation⟩ := hs.toCounts.location?_eq_some hstart hstop
  have hs' := hs.location? hlocation
  rw [runFrom, runFrom_report_base hs.tracer, hlocation]
  exact ⟨_, rfl, ⟨⟨hs'.input, hs'.cache.isBoundary, hs'.cache.position⟩, rfl⟩, rfl⟩

/-- A report between offsets without positions halts before the tracer is told. -/
theorem WatchedM.runFrom_report_astray (hs : s.Traced input t)
    (hastray : ¬ (HasPosition input start ∧ HasPosition input stop)) (event : Location → Event V)
    (h : List (Moment τ)) :
    runFrom s h (ParseT.report start stop event) = ((.error .badOffset, s), h) := by
  rw [runFrom, runFrom_report_base hs.tracer, hs.toCounts.location?_eq_none hastray]
  rfl

end Reports

/-! ## Rule invocations -/

/-- How a call ends whose body has ended.  A match is not reported if it ends astray. -/
def CallEnding.ofBody : Except Halt (Option V) × State τ → CallEnding V
  | (.ok (some value), s) =>
      if HasPosition s.input s.pos then .matched value s.pos else .halted .badOffset
  | (.ok none, _) => .failed
  | (.error halt, _) => .halted halt

/-- The end of a rule invocation that began at an offset. -/
def ParseT.closing [Tracer τ V] {m : Type → Type} [Monad m] (name : String) (start : Nat)
    (result : Option V) : ParseT τ m (Option V) := do
  match result with
  | some value => report start (← pos) (.matched name · value)
  | none =>
      seek start
      report (V := V) start start (.failed name)
  return result

namespace ParseT

variable [Tracer τ V] {m : Type → Type} [Monad m]

/-- A rule invocation is an opening report, its body and its closing. -/
theorem rule_eq (name : String) (x : ParseT τ m (Option V)) :
    rule name x = pos >>= fun start => report (V := V) start start (.enter name) >>= fun _ =>
      x >>= closing name start := rfl

/-- A body that gives nothing is gone back from before that is told. -/
theorem closing_none (name : String) (start : Nat) :
    (closing name start none : ParseT τ m (Option V)) = seek start >>= fun _ =>
      report (V := V) start start (.failed name) >>= fun _ => pure none := rfl

/-- A value is told together with where the body has come to. -/
theorem closing_some (name : String) (start : Nat) (value : V) :
    (closing name start (some value) : ParseT τ m (Option V)) = pos >>= fun stop =>
      report start stop (.matched name · value) >>= fun _ => pure (some value) := rfl

end ParseT

section Rules

variable [Tracer τ V] {input : List Char} {t : τ} {s s' : State τ} {h h' : List (Moment τ)}
  {name : String} {x : WatchedM τ (Option V)}

theorem WatchedM.runFrom_seek (pos : Nat) (s : State τ) (h : List (Moment τ)) :
    runFrom s h (ParseT.seek pos) = ((.ok (), { s with pos := pos }), h) := rfl

/-- The run of a rule invocation, by its opening report, its body and its closing. -/
theorem WatchedM.runFrom_rule (name : String) (x : WatchedM τ (Option V)) (s : State τ)
    (h : List (Moment τ)) :
    runFrom s h (ParseT.rule name x) =
      match runFrom s h (ParseT.report (V := V) s.pos s.pos (.enter name)) with
      | ((.ok (), s₁), h₁) =>
          match runFrom s₁ h₁ x with
          | ((.ok result, s₂), h₂) => runFrom s₂ h₂ (ParseT.closing name s.pos result)
          | ((.error halt, s₂), h₂) => ((.error halt, s₂), h₂)
      | ((.error halt, s₁), h₁) => ((.error halt, s₁), h₁) := by
  rw [ParseT.rule_eq, runFrom_bind, runFrom_pos]
  dsimp only
  rw [runFrom_bind]
  rcases runFrom s h (ParseT.report (V := V) s.pos s.pos (.enter name)) with ⟨⟨halt | _, s₁⟩, h₁⟩
  · rfl
  · dsimp only
    rw [runFrom_bind]
    rcases runFrom s₁ h₁ x with ⟨⟨halt | result, s₂⟩, h₂⟩
    · rfl
    · rfl

/-- How a rule invocation goes in a traced state: what comes of its first report, and of it all. -/
inductive RuleRun (input : List Char) (t : τ) (name : String) (x : WatchedM τ (Option V))
    (s : State τ) (h : List (Moment τ)) : (Except Halt Unit × State τ) × List (Moment τ) →
      (Except Halt (Option V) × State τ) × List (Moment τ) → Prop where
  /-- It begins at a bad offset. -/
  | astray : RuleRun input t name x s h ((.error .badOffset, s), h) ((.error .badOffset, s), h)
  /-- The tracer refuses it. -/
  | refused :
      s₁.Traced input (trace t (.enter (V := V) name (.between input s.pos s.pos))).next →
      (trace t (.enter (V := V) name (.between input s.pos s.pos))).verdict = .error e →
      RuleRun input t name x s h ((.error (.refused e), s₁), h) ((.error (.refused e), s₁), h)
  /-- Its body halts. -/
  | halted :
      s₁.Traced input (trace t (.enter (V := V) name (.between input s.pos s.pos))).next →
      runFrom s₁ h x = ((.error halt, s₂), h₂) →
      RuleRun input t name x s h ((.ok (), s₁), h) ((.error halt, s₂), h₂)
  /-- Its body gives a result. -/
  | closed : HasPosition input s.pos →
      s₁.Traced input (trace t (.enter (V := V) name (.between input s.pos s.pos))).next →
      runFrom s₁ h x = ((.ok result, s₂), h₂) →
      RuleRun input t name x s h ((.ok (), s₁), h)
        (runFrom s₂ h₂ (ParseT.closing name s.pos result))

/-- What a rule invocation comes to for a tracer. -/
theorem WatchedM.ruleRun (hs : s.Traced input t) (name : String) (x : WatchedM τ (Option V))
    (h : List (Moment τ)) :
    RuleRun input t name x s h (runFrom s h (ParseT.report (V := V) s.pos s.pos (.enter name)))
      (runFrom s h (ParseT.rule name x)) := by
  rw [runFrom_rule]
  by_cases hstart : HasPosition input s.pos
  · obtain ⟨s₁, hreport, hs₁, -⟩ := runFrom_report hs hstart hstart (.enter (V := V) name) h
    rw [hreport, Reply.result]
    cases hverdict : (trace t (Event.enter (V := V) name (.between input s.pos s.pos))).verdict with
    | error e => exact .refused hs₁ hverdict
    | ok =>
        dsimp only [Except.mapError]
        rcases hbody : runFrom s₁ h x with ⟨⟨halt | result, s₂⟩, h₂⟩
        · exact .halted hs₁ hbody
        · exact .closed hstart hs₁ hbody
  · rw [runFrom_report_astray hs fun h => hstart h.1]
    exact .astray

/-- A report between offsets with positions is told to the tracer, and ends as that says. -/
theorem WatchedM.runFrom_reportThen (hs : s.Traced input t) {start stop : Nat}
    (hstart : HasPosition input start) (hstop : HasPosition input stop)
    (event : Location → Event V) (a : α) (h : List (Moment τ)) :
    ∃ s', runFrom s h (ParseT.report start stop event >>= fun _ => pure a) =
        (((trace t (event (.between input start stop))).result.map fun _ => a, s'), h) ∧
      s'.Traced input (trace t (event (.between input start stop))).next ∧ s'.pos = s.pos := by
  obtain ⟨s', hrun, hs', hpos⟩ := runFrom_report hs hstart hstop event h
  refine ⟨s', ?_, hs', hpos⟩
  rw [runFrom_bind, hrun]
  cases (trace t (event (.between input start stop))).result with
  | ok => rfl
  | error halt => rfl

/-- The tracer is told how the call ended, and its verdict decides whether the call returns.
Nothing is told of a match that ends astray. -/
theorem WatchedM.closing_cases (name : String) (hs : s.Traced input t) {start : Nat}
    (hstart : HasPosition input start) (result : Option V) (h : List (Moment τ)) :
    (∃ event s', CallEnding.ofBody (.ok result, s) = .ofResult s'.pos result ∧
      (CallEnding.ofResult s'.pos result).events input name start = [event] ∧
      runFrom s h (ParseT.closing name start result) =
        (((trace t event).result.map fun _ => result, s'), h) ∧
      s'.Traced input (trace t event).next) ∨
    (CallEnding.ofBody (.ok result, s) = .halted .badOffset ∧
      runFrom s h (ParseT.closing name start result) = ((.error .badOffset, s), h)) := by
  cases result with
  | none =>
      obtain ⟨s', hrun, hs', -⟩ :=
        runFrom_reportThen (hs.goTo start) hstart hstart (.failed (V := V) name) none h
      rw [ParseT.closing_none, runFrom_bind, runFrom_seek]
      exact .inl ⟨_, s', rfl, rfl, hrun, hs'⟩
  | some value =>
      rw [ParseT.closing_some, runFrom_bind, runFrom_pos, CallEnding.ofBody, hs.input]
      by_cases hstop : HasPosition input s.pos
      · obtain ⟨s', hrun, hs', hpos⟩ :=
          runFrom_reportThen hs hstart hstop (.matched name · value) (some value) h
        rw [if_pos hstop]
        refine .inl ⟨_, s', ?_, ?_, hrun, hs'⟩
        · rw [hpos, CallEnding.ofResult]
        · rw [hpos, CallEnding.ofResult, CallEnding.events]
      · dsimp only
        rw [if_neg hstop, runFrom_bind, runFrom_report_astray hs fun h => hstop h.2]
        exact .inr ⟨rfl, rfl⟩

/-- A call that returns ended as it was reported. -/
theorem CallEnding.ofBody_of_closing (hs : s.Traced input t) {start : Nat}
    (hstart : HasPosition input start) {result result' : Option V}
    (hrun : runFrom s h (ParseT.closing name start result) = ((.ok result', s'), h')) :
    ofBody (.ok result, s) = .ofResult s'.pos result' := by
  rcases closing_cases name hs hstart result h with
    ⟨event, s₁, hending, -, hclosing, -⟩ | ⟨-, hclosing⟩
  · rw [hclosing] at hrun
    cases hresult : (trace t event).result with
    | error halt =>
        rw [hresult] at hrun
        cases hrun
    | ok =>
        rw [hresult] at hrun
        cases hrun
        exact hending
  · rw [hclosing] at hrun
    cases hrun

end Rules

end PegGen
