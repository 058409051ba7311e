import PegGen.Proofs.Trace.Invocation

/-!
# Tracing is bracketed

What a tracer is told in the run of a client are the events of the rule calls that the client makes,
in the order in which it makes them (`Client.reports_run`).  The calls are read off the run
(`Client.calls`), and where a call has a body, the calls of the body are inside.

A call that is refused, or whose body ends with an error, is left open.  A bad offset ends the whole
run, so in a run that goes on it is refusals that have left calls open.
-/

namespace PegGen

open Text WatchedM Tracer

variable {τ V α β : Type}

/-! ## The calls of a run -/

/-- The call of a rule, given what came of its first report.  There is none if the report was about
a bad offset. -/
def Call.entered (name : String) (start : Nat)
    (inner : State τ → List (Moment τ) → List (Call V)) (body : WatchedM τ (Option V)) :
    (Except Halt Unit × State τ) × List (Moment τ) → List (Call V)
  | ((.ok (), s), h) => [⟨name, start, inner s h, .ofBody (runFrom s h body).1⟩]
  | ((.error (.refused e), _), _) => [⟨name, start, [], .halted (.refused e)⟩]
  | ((.error _, _), _) => []

namespace Client

variable [Tracer τ V]

/-- The calls of rules that a client makes when it runs from a state and a history. -/
def calls (depth : Nat) : Client τ V → State τ → List (Moment τ) → List (Call V)
  | .done _, _, _ => []
  | .look next, s, h => (next s).calls depth s h
  | .seek pos next, s, h =>
      after (fun _ s h => next.calls depth s (h ++ [⟨depth, none, s⟩]))
        (runFrom s h (ParseT.seek pos))
  | .fail e next, s, h =>
      let raised := some (s.pos, e)
      after (fun _ s h => next.calls depth s (h ++ [⟨depth, raised, s⟩]))
        (runFrom s h (ParseT.fail e))
  | .consume e next, s, h =>
      let raised := some (s.pos, e)
      after (fun taken s h => (next taken).calls depth s
          (h ++ [⟨depth, if taken.isNone then raised else none, s⟩]))
        (runFrom s h (ParseT.consume e))
  | .position offset next, s, h =>
      after (fun p s h => (next p).calls depth s (h ++ [⟨depth, none, s⟩]))
        (runFrom s h (ParseT.position offset))
  | .location start stop next, s, h =>
      after (fun l s h => (next l).calls depth s (h ++ [⟨depth, none, s⟩]))
        (runFrom s h (ParseT.location start stop))
  | .error next, s, h =>
      after (fun e s h => (next e).calls depth s (h ++ [⟨depth, none, s⟩]))
        (runFrom s h ParseT.error)
  | .silenced body next, s, h =>
      body.calls (depth + 1) s.silence (h ++ [⟨depth + 1, none, s.silence⟩]) ++
        after (fun answer s h => (next answer).calls depth s (h ++ [⟨depth, none, s⟩]))
          (runFrom s h (attempt (ParseT.silenced (begun (depth + 1) (body.run (depth + 1))))))
  | .rule name body next, s, h =>
      Call.entered name s.pos (fun s h => body.calls depth s (h ++ [⟨depth, none, s⟩]))
          (begun depth (body.run depth))
          (runFrom s h (ParseT.report (V := V) s.pos s.pos (.enter name))) ++
        after (fun answer s h => (next answer).calls depth s (h ++ [⟨depth, none, s⟩]))
          (runFrom s h (attempt (ParseT.rule name (begun depth (body.run depth)))))
  | .named description body next, s, h =>
      body.calls (depth + 1) s.silence (h ++ [⟨depth + 1, none, s.silence⟩]) ++
        after (fun answer s h => (next answer).calls depth s
            (h ++ [⟨depth, if foundNothing answer then some (s.pos, .other description) else none,
              s⟩]))
          (runFrom s h
            (attempt (ParseT.named description (begun (depth + 1) (body.run (depth + 1))))))

/-- The calls of a run over an input. -/
def callsOver (c : Client τ V) (input : String) (tracer : Option τ) : List (Call V) :=
  c.calls 0 (State.init input tracer) [⟨0, none, State.init input tracer⟩]

end Client

/-! ## Runs -/

/-- A run that has told the tracer of these calls.  Those that were left open were refused, unless
the run itself has ended by the same halt. -/
structure Reports [Tracer τ V] (input : List Char) (t : τ) (calls : List (Call V))
    (r : (Except Halt α × State τ) × List (Moment τ)) : Prop where
  traced : r.1.2.Traced input (told t (Call.eventsAll input calls))
  halts : ∀ halt ∈ Call.haltsAll calls, (∃ e, halt = .refused e) ∨ r.1.1 = .error halt

namespace Reports

variable [Tracer τ V] {input : List Char} {t : τ} {s : State τ} {h : List (Moment τ)}
  {calls : List (Call V)} {x : WatchedM τ α}

/-- A run without calls leaves the tracer alone. -/
theorem quiet {r : (Except Halt α × State τ) × List (Moment τ)} (hr : r.1.2.Traced input t) :
    Reports input t ([] : List (Call V)) r :=
  ⟨hr, fun _ hhalt => absurd hhalt List.not_mem_nil⟩

theorem ofStep {f : State τ → Option (α × State τ)} (hs : s.Traced input t)
    (hf : ∀ {a s'}, f s = some (a, s') → s'.Traced input t) :
    Reports input t ([] : List (Call V)) (runFrom s h (ParseT.ofStep f)) := by
  rw [runFrom_ofStep]
  cases hstep : f s with
  | none => exact quiet hs
  | some r => exact quiet (hf hstep)

/-- In a run that goes on, the calls that were left open were refused. -/
theorem refused {r : (Except Halt α × State τ) × List (Moment τ)} (hr : Reports input t calls r)
    {a : α} (hok : r.1.1 = .ok a) : ∀ halt ∈ Call.haltsAll calls, ∃ e, halt = .refused e := by
  intro halt hhalt
  rcases hr.halts halt hhalt with he | he
  · exact he
  · rw [hok] at he
    cases he

/-- A run that goes on no further. -/
theorem halted {halt : Halt} {s' : State τ} {h' : List (Moment τ)}
    (hr : Reports input t calls (((.error halt : Except Halt α), s'), h')) :
    Reports input t calls (((.error halt : Except Halt β), s'), h') := by
  refine ⟨hr.traced, fun left hleft => (hr.halts left hleft).imp_right fun he => ?_⟩
  cases he
  rfl

theorem bind {f : α → WatchedM τ β} {next : α → State τ → List (Moment τ) → List (Call V)}
    (hx : Reports input t calls (runFrom s h x))
    (hf : ∀ a s' h', s'.Traced input (told t (Call.eventsAll input calls)) →
      Reports input (told t (Call.eventsAll input calls)) (next a s' h') (runFrom s' h' (f a))) :
    Reports input t (calls ++ Client.after next (runFrom s h x)) (runFrom s h (x >>= f)) := by
  rw [runFrom_bind]
  generalize runFrom s h x = r at hx
  obtain ⟨⟨halt | a, s'⟩, h'⟩ := r
  · rw [Client.after, List.append_nil]
    exact hx.halted
  · have hnext := hf a s' h' hx.traced
    rw [Client.after]
    constructor
    · rw [Call.eventsAll_append, told_append]
      exact hnext.traced
    · rw [Call.haltsAll_append]
      refine List.forall_mem_append.2 ⟨fun halt hhalt => .inl ?_, hnext.halts⟩
      exact hx.refused rfl halt hhalt

theorem attempt (hx : Reports input t calls (runFrom s h x)) :
    Reports input t calls (runFrom s h (attempt x)) := by
  rw [runFrom_attempt]
  generalize runFrom s h x = r at hx
  obtain ⟨⟨halt | a, s'⟩, h'⟩ := r
  · cases halt with
    | badOffset => exact hx.halted
    | outOfFuel => exact hx.halted
    | refused e =>
        refine ⟨hx.traced, fun left hleft => .inl ?_⟩
        rcases hx.halts left hleft with he | he
        · exact he
        · cases he
          exact ⟨e, rfl⟩
  · exact ⟨hx.traced, fun halt hhalt => .inl (hx.refused rfl halt hhalt)⟩

theorem silenced (hx : Reports input t calls (runFrom s.silence h x)) :
    Reports input t calls (runFrom s h (ParseT.silenced x)) :=
  ⟨hx.traced.unsilence, hx.halts⟩

/-- The steps after a body that make no calls. -/
theorem bindQuiet {f : α → WatchedM τ β} (hx : Reports input t calls (runFrom s h x))
    (hf : ∀ a s' h' t', s'.Traced input t' →
      Reports input t' ([] : List (Call V)) (runFrom s' h' (f a))) :
    Reports input t calls (runFrom s h (x >>= f)) := by
  have hbind := hx.bind fun a s' h' hs' => hf a s' h' _ hs'
  have hnone : ∀ r, Client.after (fun (_ : α) (_ : State τ) _ => ([] : List (Call V))) r = [] := by
    rintro ⟨⟨halt | a, s'⟩, h'⟩
    · rfl
    · rfl
  rwa [hnone, List.append_nil] at hbind

theorem named (description : String) {x : WatchedM τ (Option V)}
    (hx : Reports input t calls (runFrom s.silence h x)) :
    Reports input t calls (runFrom s h (ParseT.named description x)) := by
  refine hx.silenced.bindQuiet fun result s' h' t' hs' => ?_
  cases result with
  | none => exact quiet (hs'.fail (.other description))
  | some value => exact quiet hs'

/-! Moments and looks leave the state as it is. -/

theorem noteThen {depth : Nat} {raised : Option (Nat × Expectation)}
    (hx : Reports input t calls (runFrom s (h ++ [⟨depth, raised, s⟩]) x)) :
    Reports input t calls (runFrom s h (note depth raised >>= fun _ => x)) :=
  hx

theorem bindPos {f : Nat → WatchedM τ α} (hf : Reports input t calls (runFrom s h (f s.pos))) :
    Reports input t calls (runFrom s h (ParseT.pos >>= f)) :=
  hf

/-- A run that has made one call. -/
theorem single {r : (Except Halt α × State τ) × List (Moment τ)} {name : String} {start : Nat}
    {inner : List (Call V)} {ending : CallEnding V}
    (htraced : r.1.2.Traced input
      (told (trace t (.enter (V := V) name (.between input start start))).next
        (Call.eventsAll input inner ++ ending.events input name start)))
    (hinner : ∀ halt ∈ Call.haltsAll inner, (∃ e, halt = .refused e) ∨ r.1.1 = .error halt)
    (hending : ∀ halt ∈ ending.halts, (∃ e, halt = .refused e) ∨ r.1.1 = .error halt) :
    Reports input t [⟨name, start, inner, ending⟩] r := by
  constructor
  · rw [Call.eventsAll, Call.eventsAll, List.append_nil, Call.events]
    exact htraced
  · rw [Call.haltsAll, Call.haltsAll, List.append_nil, Call.halts]
    exact List.forall_mem_append.2 ⟨hinner, hending⟩

/-- A call whose body has given a result is closed, unless the body has gone astray. -/
theorem closing {name : String} {start : Nat} (hstart : HasPosition input start)
    {inner : List (Call V)} {result : Option V} {s₂ : State τ} {h₂ : List (Moment τ)}
    (hbody : Reports input (trace t (.enter (V := V) name (.between input start start))).next inner
      ((.ok result, s₂), h₂)) :
    Reports input t [⟨name, start, inner, .ofBody (.ok result, s₂)⟩]
      (runFrom s₂ h₂ (ParseT.closing name start result)) := by
  have hinner := hbody.refused rfl
  rcases closing_cases name hbody.traced hstart result h₂ with
    ⟨event, s', hending, hevents, hrun, hs'⟩ | ⟨hending, hrun⟩
  · rw [hrun, hending]
    refine single ?_ (fun halt hhalt => .inl (hinner halt hhalt)) ?_
    · rw [hevents, told_append]
      exact hs'
    · rw [CallEnding.halts_ofResult]
      exact fun _ hhalt => absurd hhalt List.not_mem_nil
  · rw [hrun, hending]
    refine single ?_ (fun halt hhalt => .inl (hinner halt hhalt)) fun halt hhalt => .inr ?_
    · rw [CallEnding.events, List.append_nil]
      exact hbody.traced
    · rw [List.mem_singleton.1 hhalt]

/-- The events of a rule call: one when it begins, those of the calls inside, and one when it is
closed. -/
theorem rule (name : String) {x : WatchedM τ (Option V)}
    {inner : State τ → List (Moment τ) → List (Call V)} (hs : s.Traced input t)
    (hx : ∀ s' t', s'.Traced input t' → Reports input t' (inner s' h) (runFrom s' h x)) :
    Reports input t (Call.entered name s.pos inner x
      (runFrom s h (ParseT.report (V := V) s.pos s.pos (.enter name))))
      (runFrom s h (ParseT.rule name x)) := by
  have hrule := WatchedM.ruleRun hs name x h
  generalize runFrom s h (ParseT.report (V := V) s.pos s.pos (.enter name)) = entering,
    runFrom s h (ParseT.rule name x) = r at hrule
  cases hrule with
  | astray => exact quiet hs
  | refused hs₁ hverdict =>
      refine single hs₁ (fun _ hhalt => absurd hhalt List.not_mem_nil) fun halt hhalt => .inl ?_
      exact ⟨_, List.mem_singleton.1 hhalt⟩
  | halted hs₁ hrun =>
      have hbody := hx _ _ hs₁
      rw [Call.entered, hrun]
      rw [hrun] at hbody
      refine single ?_ hbody.halts fun left hleft => .inr ?_
      · rw [CallEnding.ofBody, CallEnding.events, List.append_nil]
        exact hbody.traced
      · rw [List.mem_singleton.1 hleft]
  | closed hstart hs₁ hrun =>
      have hbody := hx _ _ hs₁
      rw [Call.entered, hrun]
      rw [hrun] at hbody
      exact hbody.closing hstart

end Reports

/-- What the tracer is told in the run of a client is what the calls of the client report. -/
theorem Client.reports_run [Tracer τ V] {input : List Char} (c : Client τ V) {depth : Nat} {t : τ}
    {s : State τ} {h : List (Moment τ)} (hs : s.Traced input t) :
    Reports input t (c.calls depth s h) (runFrom s h (c.run depth)) := by
  induction c generalizing depth t s h with
  | done ending =>
      cases ending with
      | ok result => exact .quiet hs
      | error e => exact .quiet hs
  | look next ih => exact ih s hs
  | seek pos next ih =>
      have hseek : Reports input t ([] : List (Call V)) (runFrom s h (ParseT.seek pos)) :=
        .quiet (hs.goTo pos)
      exact hseek.bind fun _ s₁ h₁ hs₁ => .noteThen (ih hs₁)
  | fail e next ih =>
      have hfail : Reports input t ([] : List (Call V)) (runFrom s h (ParseT.fail e)) :=
        .quiet (hs.fail e)
      exact .bindPos (hfail.bind fun _ s₁ h₁ hs₁ => .noteThen (ih hs₁))
  | consume e next ih =>
      have hconsume := Reports.ofStep (V := V) (h := h) (f := State.consume? e) hs hs.consume?
      exact .bindPos (hconsume.bind fun taken s₁ h₁ hs₁ => .noteThen (ih taken hs₁))
  | position offset next ih =>
      have hposition :=
        Reports.ofStep (V := V) (h := h) (f := State.position? offset) hs hs.position?
      exact hposition.bind fun p s₁ h₁ hs₁ => .noteThen (ih p hs₁)
  | location start stop next ih =>
      have hlocation :=
        Reports.ofStep (V := V) (h := h) (f := State.location? start stop) hs hs.location?
      exact hlocation.bind fun l s₁ h₁ hs₁ => .noteThen (ih l hs₁)
  | error next ih =>
      have herror := Reports.ofStep (V := V) (h := h) (f := State.error?) hs hs.error?
      exact herror.bind fun e s₁ h₁ hs₁ => .noteThen (ih e hs₁)
  | silenced body next ihbody ih =>
      have hbody : Reports input t _
          (runFrom s.silence h (begun (depth + 1) (body.run (depth + 1)))) :=
        .noteThen (ihbody hs.silence)
      exact hbody.silenced.attempt.bind fun answer s₁ h₁ hs₁ => .noteThen (ih answer hs₁)
  | rule name body next ihbody ih =>
      have hcall : Reports input t (Call.entered name s.pos
          (fun s h => body.calls depth s (h ++ [⟨depth, none, s⟩])) (begun depth (body.run depth))
          (runFrom s h (ParseT.report (V := V) s.pos s.pos (.enter name))))
          (runFrom s h (ParseT.rule name (begun depth (body.run depth)))) :=
        .rule name hs fun s' t' hs' => .noteThen (ihbody hs')
      exact hcall.attempt.bind fun answer s₁ h₁ hs₁ => .noteThen (ih answer hs₁)
  | named description body next ihbody ih =>
      have hbody : Reports input t _
          (runFrom s.silence h (begun (depth + 1) (body.run (depth + 1)))) :=
        .noteThen (ihbody hs.silence)
      exact (hbody.named description).attempt.bind fun answer s₁ h₁ hs₁ =>
        .bindPos (.noteThen (ih answer hs₁))

/-! ## One call -/

namespace Client

/-- The invocation of a rule whose body is a client. -/
def invoke [Tracer τ V] (depth : Nat) (name : String) (body : Client τ V) :
    WatchedM τ (Option V) :=
  ParseT.rule name (begun depth (body.run depth))

/-- The calls that the body makes when the rule is invoked. -/
def innerCalls [Tracer τ V] (depth : Nat) (name : String) (body : Client τ V) (s : State τ)
    (h : List (Moment τ)) : List (Call V) :=
  after (fun _ s h => body.calls depth s (h ++ [⟨depth, none, s⟩]))
    (runFrom s h (ParseT.report (V := V) s.pos s.pos (.enter name)))

section Invocations

variable [Tracer τ V] {input : List Char} {body : Client τ V} {depth : Nat} {t : τ}
  {s s' : State τ} {h h' : List (Moment τ)} {name : String}

theorem reports_begun (body : Client τ V) (depth : Nat) (hs : s.Traced input t)
    (h : List (Moment τ)) :
    Reports input t (body.calls depth s (h ++ [⟨depth, none, s⟩]))
      (runFrom s h (begun depth (body.run depth))) :=
  .noteThen (body.reports_run hs)

/-- A call that returns has been closed. -/
theorem reports_invoke {result : Option V} (hs : s.Traced input t)
    (hrun : runFrom s h (body.invoke depth name) = ((.ok result, s'), h')) :
    Reports input t [⟨name, s.pos, body.innerCalls depth name s h, .ofResult s'.pos result⟩]
      (((.ok result : Except Halt (Option V)), s'), h') := by
  have hrule := ruleRun hs name (begun depth (body.run depth)) h
  rw [invoke] at hrun
  rw [innerCalls]
  generalize runFrom s h (ParseT.report (V := V) s.pos s.pos (.enter name)) = entering,
    runFrom s h (ParseT.rule name (begun depth (body.run depth))) = r at hrule hrun
  cases hrule with
  | astray => cases hrun
  | refused => cases hrun
  | halted => cases hrun
  | closed hstart hs₁ hbody =>
      have hreports := body.reports_begun depth hs₁ h
      rw [hbody] at hreports
      rw [← CallEnding.ofBody_of_closing hreports.traced hstart hrun, ← hrun]
      exact hreports.closing hstart

/-- What is open inside a call that returns was refused. -/
theorem refused_innerCalls {result : Option V} (hs : s.Traced input t)
    (hrun : runFrom s h (body.invoke depth name) = ((.ok result, s'), h')) :
    ∀ halt ∈ Call.haltsAll (body.innerCalls depth name s h), ∃ e, halt = .refused e := by
  have hreports := (reports_invoke hs hrun).refused rfl
  rwa [Call.haltsAll_returned] at hreports

end Invocations

/-! A `LineTracer` refuses nothing. -/

section Lines

variable {input : List Char} {body : Client LineTracer V} {depth : Nat} {t : LineTracer}
  {s s' : State LineTracer} {h h' : List (Moment LineTracer)} {name : String} {e : TraceError}

/-- A call that is open can be closed. -/
theorem closing_ne_refused (hs : s.Traced input t) {n : Nat} (ht : t.depth = n + 1) {start : Nat}
    (hstart : HasPosition input start) (result : Option V) :
    runFrom s h (ParseT.closing name start result) ≠ ((.error (.refused e), s'), h') := by
  intro hrun
  rcases closing_cases name hs hstart result h with
    ⟨event, s₁, -, hevents, hclosing, -⟩ | ⟨-, hclosing⟩
  · have haccepts := (LineTracer.accepts_closing ht input name start (.ofResult s₁.pos result)).1
    rw [hevents] at haccepts
    rw [hclosing, Reply.result, haccepts.1] at hrun
    cases hrun
  · rw [hclosing] at hrun
    cases hrun

/-- A call that ends with an error has it from its body. -/
theorem invoke_refused (hs : s.Traced input t)
    (hrun : runFrom s h (body.invoke depth name) = ((.error (.refused e), s'), h')) :
    ∃ s₁, runFrom s h (ParseT.report (V := V) s.pos s.pos (.enter name)) = ((.ok (), s₁), h) ∧
      runFrom s₁ h (begun depth (body.run depth)) = ((.error (.refused e), s'), h') := by
  have hrule := ruleRun hs name (begun depth (body.run depth)) h
  rw [invoke] at hrun
  generalize runFrom s h (ParseT.report (V := V) s.pos s.pos (.enter name)) = entering,
    runFrom s h (ParseT.rule name (begun depth (body.run depth))) = r at hrule hrun
  cases hrule with
  | astray => cases hrun
  | refused hs₁ hverdict =>
      rw [LineTracer.verdict_enter] at hverdict
      cases hverdict
  | halted hs₁ hbody => exact ⟨_, rfl, hbody.trans hrun⟩
  | closed hstart hs₁ hbody =>
      have hreports := body.reports_begun depth hs₁ h
      rw [hbody] at hreports
      have hinner := fun calls : List (Call V) =>
        LineTracer.Admits.inside t name (.between input s.pos s.pos)
          (LineTracer.admits_eventsAll _ input calls)
      exact absurd hrun (closing_ne_refused hreports.traced (hinner _).2 hstart _)

/-- The depth after a call that returns. -/
theorem depth_invoke {result : Option V} (hs : s.Traced input t)
    (hrun : runFrom s h (body.invoke depth name) = ((.ok result, s'), h')) :
    ∃ t', s'.tracer = some t' ∧
      t'.depth = t.depth + (Call.haltsAll (body.innerCalls depth name s h)).length := by
  have hreports := reports_invoke hs hrun
  refine ⟨_, hreports.traced.tracer, ?_⟩
  rw [(LineTracer.admits_eventsAll t input _).2, Call.haltsAll_returned]

end Lines

end Client

/-- In any run and with any tracer, a call of a rule that returns has told the tracer that it
begins, then of the calls that its body made, and then how it ended.

With a `LineTracer` a run has all its events accepted.  A call ends with an error only if its body
does.  The depth after a call that returns is the depth before and one more for each call inside
that an error has left open. -/
theorem tracing_bracketed (V : Type) (input : String) :
    (∀ (τ : Type) [Tracer τ V] (c : Client τ V) (tracer : Option τ),
      ∀ m ∈ c.history input tracer, ∀ t, m.state.tracer = some t →
      ∀ (depth : Nat) (name : String) (body : Client τ V) (h : List (Moment τ))
        (result : Option V) (s' : State τ) (h' : List (Moment τ)),
      runFrom m.state h (body.invoke depth name) = ((.ok result, s'), h') →
      s'.tracer = some (told t
        (.enter name (.between input.toList m.state.pos m.state.pos) ::
          (Call.eventsAll input.toList (body.innerCalls depth name m.state h) ++
            [match result with
            | some value => .matched name (.between input.toList m.state.pos s'.pos) value
            | none => .failed name (.between input.toList m.state.pos m.state.pos)])))) ∧
    ∀ (c : Client LineTracer V) (t₀ : LineTracer),
      (∃ ending s, runFrom (State.init input (some t₀)) [] (begun 0 (c.run 0)) =
          ((ending, s), c.history input (some t₀)) ∧
        s.tracer = some (told t₀ (Call.eventsAll input.toList (c.callsOver input (some t₀)))) ∧
        Accepts t₀ (Call.eventsAll input.toList (c.callsOver input (some t₀)))) ∧
      ∀ m ∈ c.history input (some t₀), ∀ t, m.state.tracer = some t →
      ∀ (depth : Nat) (name : String) (body : Client LineTracer V) (h : List (Moment LineTracer)),
        (∀ e s' h', runFrom m.state h (body.invoke depth name) = ((.error (.refused e), s'), h') →
          ∃ s₁, runFrom m.state h
              (ParseT.report (V := V) m.state.pos m.state.pos (.enter name)) = ((.ok (), s₁), h) ∧
            runFrom s₁ h (begun depth (body.run depth)) = ((.error (.refused e), s'), h')) ∧
        ∀ result s' h', runFrom m.state h (body.invoke depth name) = ((.ok result, s'), h') →
          ∃ t', s'.tracer = some t' ∧
            t'.depth =
              t.depth + (Call.haltsAll (body.innerCalls depth name m.state h)).length ∧
            (∀ halt ∈ Call.haltsAll (body.innerCalls depth name m.state h), ∃ e,
              halt = .refused e) ∧
            (Call.haltsAll (body.innerCalls depth name m.state h) = [] → t'.depth = t.depth) := by
  constructor
  · intro τ _ c tracer m hm t ht depth name body h result s' h' hrun
    have hs : m.state.Traced input.toList t := ⟨c.counts_of_mem_history input tracer hm, ht⟩
    rw [(Client.reports_invoke hs hrun).traced.tracer, Call.eventsAll, Call.eventsAll,
      List.append_nil, Call.events]
    cases result with
    | none => rfl
    | some value => rfl
  · intro c t₀
    have hinit : (State.init input (some t₀)).Traced input.toList t₀ :=
      ⟨⟨rfl, State.cacheExact_init input _⟩, rfl⟩
    refine ⟨⟨_, _, rfl, (c.reports_begun 0 hinit []).traced.tracer,
      (t₀.admits_eventsAll _ _).1⟩, ?_⟩
    intro m hm t ht depth name body h
    have hs : m.state.Traced input.toList t := ⟨c.counts_of_mem_history input _ hm, ht⟩
    refine ⟨fun e s' h' => Client.invoke_refused hs, fun result s' h' hrun => ?_⟩
    obtain ⟨t', ht', hdepth⟩ := Client.depth_invoke hs hrun
    refine ⟨t', ht', hdepth, Client.refused_innerCalls hs hrun, fun hnone => ?_⟩
    rw [hdepth, hnone, List.length_nil, Nat.add_zero]

/-- Calls a rule inside another, where an error leaves both open, and then a third. -/
def Client.stumbling : Client τ Unit :=
  .rule "outer" (.rule "inner" (.done (.error (.missingResult "inner"))) .done) fun _ =>
    .rule "next" (.consume .any fun _ => .done (.ok (some ()))) .done

theorem tracing_bracketed_stumbling :
    (∃ s' h', runFrom (State.init "é" (some ({} : Recorder Unit))) []
        (Client.stumbling.invoke 0 "top") = ((.ok (some ()), s'), h') ∧
      s'.tracer.map (·.events.map fun event => (event.kind, event.rule)) =
        some [(.enter, "top"), (.enter, "outer"), (.enter, "inner"), (.enter, "next"),
          (.matched, "next"), (.matched, "top")]) ∧
    ∃ s' h' t', runFrom (State.init "é" (some (⟨.kept [], 0⟩ : LineTracer))) []
        (Client.stumbling.invoke 0 "top") = ((.ok (some ()), s'), h') ∧
      s'.tracer = some t' ∧ t'.depth = 2 := by
  obtain ⟨hevents, hlines⟩ := tracing_bracketed Unit "é"
  constructor
  · obtain ⟨s', h', hrun⟩ := exists_run_of_toOption (show (runFrom
        (State.init "é" (some ({} : Recorder Unit))) []
        (Client.stumbling.invoke 0 "top")).1.1.toOption = some (some ()) by decide +kernel)
    have hinner : (Call.eventsAll "é".toList (Client.stumbling.innerCalls 0 "top"
          (State.init "é" (some ({} : Recorder Unit))) [])).map
          (fun event => (event.kind, event.rule)) =
        [(.enter, "outer"), (.enter, "inner"), (.enter, "next"), (.matched, "next")] := by
      decide +kernel
    have htold := hevents (Recorder Unit) (.done (.ok none)) (some {}) _ (.head _) {} rfl 0 "top"
      Client.stumbling [] (some ()) s' h' hrun
    refine ⟨s', h', hrun, ?_⟩
    rw [htold, Recorder.told_eq, Option.map_some, List.map_append, List.map_cons, List.map_append,
      hinner]
    rfl
  · obtain ⟨s', h', hrun⟩ := exists_run_of_toOption (show (runFrom
        (State.init "é" (some (⟨.kept [], 0⟩ : LineTracer))) []
        (Client.stumbling.invoke 0 "top")).1.1.toOption = some (some ()) by decide +kernel)
    have hinner : (Call.haltsAll (Client.stumbling.innerCalls 0 "top"
        (State.init "é" (some (⟨.kept [], 0⟩ : LineTracer))) [])).length = 2 := by
      decide +kernel
    obtain ⟨t', ht', hdepth, -⟩ := ((hlines (.done (.ok none)) ⟨.kept [], 0⟩).2 _ (.head _) _ rfl 0
      "top" Client.stumbling []).2 (some ()) s' h' hrun
    exact ⟨s', h', t', hrun, ht', hdepth.trans (by rw [hinner])⟩

end PegGen
