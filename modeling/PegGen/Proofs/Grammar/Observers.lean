import PegGen.Proofs.Grammar.Congruence
import PegGen.Proofs.Parse.Discipline
import PegGen.Proofs.Trace.Acceptance

/-!
# Tracers only observe

A parse does the same with any tracer and without one, up to the first event that the tracer
refuses.  There it stops.

A parse with an arbitrary tracer, or with none, is run beside a parse with a recorder.  As long as
nothing is refused, both have the same value, offset, furthest failure and silencers.  The tracer
has been offered what the recorder has kept, and if it refuses one of these events, the parse has
its refusal for a result (`Heeds`).  What the tracer is offered is then settled, however the parse
with the recorder goes on.
-/

namespace PegGen

open Text ParseT Tracer

variable {τ α β : Type} [Tracer τ Tree]

/-! ## Two runs, one of them recorded -/

/-- Two states on boundaries of the input that agree in all that evaluation looks at and in what
errors are made of. -/
structure Beside (input : List Char) (s : State (Recorder Tree)) (s' : State τ) : Prop where
  left : s.OnBoundaries input
  right : s'.OnBoundaries input
  pos : s'.pos = s.pos
  furthest : s'.furthest = s.furthest
  silencers : s'.silencers = s.silencers

/-- Two runs, one with a recorder that had kept `kept`, and one with `tracer`.  They have ended
alike, or the second was refused one of the events that the first has recorded. -/
inductive Heeds (input : List Char) (kept : List (Event Tree)) (tracer : Option τ) :
    Except Halt α × State (Recorder Tree) → Except Halt α × State τ → Prop where
  | value : s.tracer = some ⟨kept ++ E⟩ → offer tracer E = (.ok (), s'.tracer) →
      Beside input s s' → Heeds input kept tracer (.ok a, s) (.ok a, s')
  | outOfFuel : s.tracer = some ⟨kept ++ E⟩ → offer tracer E = (.ok (), s'.tracer) →
      Heeds input kept tracer (.error .outOfFuel, s) (.error .outOfFuel, s')
  | refused : s.tracer = some ⟨kept ++ E⟩ → offer tracer E = (.error e, s'.tracer) →
      s.OnBoundaries input → Heeds input kept tracer (.ok a, s) (.error (.refused e), s')
  | refusedOutOfFuel : s.tracer = some ⟨kept ++ E⟩ → offer tracer E = (.error e, s'.tracer) →
      Heeds input kept tracer (.error .outOfFuel, s) (.error (.refused e), s')

/-- From states beside each other, the second action heeds its tracer and otherwise does what the
first does. -/
def Observed (input : List Char) (x : ParseM (Recorder Tree) α) (y : ParseM τ α) : Prop :=
  ∀ kept s s', s.tracer = some ⟨kept⟩ → Beside input s s' →
    Heeds input kept s'.tracer (runFrom s x) (runFrom s' y)

/-- From states beside each other, both actions end with the same value and tell their tracers
nothing. -/
def Quiet (input : List Char) (x : ParseM (Recorder Tree) α) (y : ParseM τ α) : Prop :=
  ∀ s s', Beside input s s' → ∃ a s₁ s₁', runFrom s x = (.ok a, s₁) ∧
    runFrom s' y = (.ok a, s₁') ∧ s₁.tracer = s.tracer ∧ s₁'.tracer = s'.tracer ∧
    Beside input s₁ s₁'

/-! ## Steps of states beside each other -/

namespace Beside

variable {τ : Type} {input : List Char} {s : State (Recorder Tree)} {s' : State τ}

theorem goTo (h : Beside input s s') {pos : Nat} (hpos : IsBoundary pos input) :
    Beside input { s with pos := pos } { s' with pos := pos } :=
  ⟨h.left.goTo hpos, h.right.goTo hpos, rfl, h.furthest, h.silencers⟩

theorem fail (h : Beside input s s') (e : Expectation) : Beside input (s.fail e) (s'.fail e) := by
  refine ⟨h.left.fail e, h.right.fail e, by simpa using h.pos, ?_, by simpa using h.silencers⟩
  rw [State.fail, State.fail, h.silencers]
  split
  · show s'.furthest.record s'.pos e = s.furthest.record s.pos e
    rw [h.furthest, h.pos]
  · exact h.furthest

theorem finished {V : Type} (h : Beside input s s') (result : Option V) :
    Beside input (s.finished result) (s'.finished result) := by
  cases result with
  | none => exact h
  | some value =>
      rw [State.finished, State.finished, h.pos, h.left.input, h.right.input]
      split
      · exact h
      · exact h.fail .endOfInput

theorem outcome {V : Type} (h : Beside input s s') (result : Option V) :
    s'.outcome result = s.outcome result := by
  cases result with
  | none => rw [State.outcome, State.outcome, h.furthest, h.left.input, h.right.input]
  | some value =>
      rw [State.outcome, State.outcome, h.pos, (h.fail .endOfInput).furthest, h.left.input,
        h.right.input]

/-- The second state without its tracer. -/
theorem untraced (hs : s.OnBoundaries input) : Beside input s
    ({ input := s.input, pos := s.pos, furthest := s.furthest, silencers := s.silencers,
       cache := s.cache } : State τ) :=
  ⟨hs, ⟨⟨hs.input, hs.cache.isBoundary, hs.cache.position⟩, hs.pos, hs.furthest⟩, rfl, rfl, rfl⟩

end Beside

/-! ## Actions that tell nothing -/

namespace Quiet

variable {τ : Type} {input : List Char}

theorem seek {pos : Nat} (hpos : IsBoundary pos input) :
    Quiet input (ParseT.seek pos) (ParseT.seek pos : ParseM τ Unit) :=
  fun _ _ h => ⟨_, _, _, rfl, rfl, rfl, rfl, h.goTo hpos⟩

theorem fail (e : Expectation) :
    Quiet input (ParseT.fail e) (ParseT.fail e : ParseM τ Unit) :=
  fun s s' h => ⟨_, _, _, rfl, rfl, s.tracer_fail e, s'.tracer_fail e, h.fail e⟩

theorem consume (e : Expectation) :
    Quiet input (ParseT.consume e) (ParseT.consume e : ParseM τ _) := by
  intro s s' h
  obtain ⟨before, rest, hinput, hlength, hrest⟩ := h.left.rest?
  have hrest' : s'.rest? = some rest := by
    rw [State.rest?, h.right.input, h.pos, ← h.left.input]
    exact hrest
  rw [ParseT.consume, ParseT.consume, runFrom_ofStep, runFrom_ofStep, State.consume?, hrest,
    State.consume?, hrest', Option.map_some, Option.map_some]
  cases hmatched : e.matched? rest with
  | none => exact ⟨_, _, _, rfl, rfl, s.tracer_fail e, s'.tracer_fail e, h.fail e⟩
  | some text =>
      obtain ⟨after, rfl⟩ := Expectation.exists_append_of_matched? hmatched
      have hboundary : IsBoundary (s.pos + byteLength text) input :=
        ⟨before ++ text, after, by rw [hinput, List.append_assoc],
          by rw [byteLength_append, hlength]⟩
      refine ⟨_, _, _, rfl, rfl, rfl, rfl, ?_⟩
      rw [h.pos]
      exact h.goTo hboundary

theorem finish {V : Type} (result : Option V) :
    Quiet input (ParseT.finish result) (ParseT.finish result : ParseM τ _) := by
  intro s s' h
  obtain ⟨cache, log, hfinish, hs⟩ := h.left.finish?_eq result
  obtain ⟨cache', log', hfinish', hs'⟩ := h.right.finish?_eq result
  rw [ParseT.finish, ParseT.finish, runFrom_ofStep, runFrom_ofStep, hfinish, hfinish',
    h.outcome result]
  have hstates := h.finished result
  exact ⟨_, _, _, rfl, rfl, s.tracer_finished result, s'.tracer_finished result,
    ⟨hs, hs', hstates.pos, hstates.furthest, hstates.silencers⟩⟩

end Quiet

/-! ## Actions -/

namespace Heeds

variable {input : List Char} {kept E : List (Event Tree)} {tracer tracer' : Option τ}
  {rx : Except Halt α × State (Recorder Tree)} {ry : Except Halt α × State τ}

/-- What was offered before, and accepted, counts too. -/
theorem prepend (hoffer : offer tracer E = (.ok (), tracer'))
    (h : Heeds input (kept ++ E) tracer' rx ry) : Heeds input kept tracer rx ry := by
  cases h with
  | value htold hrest hs =>
      exact .value (htold.trans (by rw [List.append_assoc]))
        ((offer_append_of_ok hoffer _).trans hrest) hs
  | outOfFuel htold hrest =>
      exact .outOfFuel (htold.trans (by rw [List.append_assoc]))
        ((offer_append_of_ok hoffer _).trans hrest)
  | refused htold hrest hs =>
      exact .refused (htold.trans (by rw [List.append_assoc]))
        ((offer_append_of_ok hoffer _).trans hrest) hs
  | refusedOutOfFuel htold hrest =>
      exact .refusedOutOfFuel (htold.trans (by rw [List.append_assoc]))
        ((offer_append_of_ok hoffer _).trans hrest)

/-- Runs that heed each other go on so.  If the second is over because an event was refused, then
the first goes on as it would beside a run without a tracer. -/
theorem bind {f : α → ParseM (Recorder Tree) β} {g : α → ParseM τ β}
    (h : Heeds input kept tracer rx ry) (hfg : ∀ a, Observed input (f a) (g a)) :
    Heeds input kept tracer (andThen f rx) (andThen g ry) := by
  cases h with
  | value htold hoffer hs => exact (hfg _ _ _ _ htold hs).prepend hoffer
  | outOfFuel htold hoffer => exact .outOfFuel htold hoffer
  | refusedOutOfFuel htold hoffer => exact .refusedOutOfFuel htold hoffer
  | @refused _ _ a s s' htold hoffer hs =>
      have hrest := hfg a _ s _ htold (.untraced hs)
      rw [andThen, andThen]
      generalize runFrom s (f a) = r, runFrom _ (g a) = r' at hrest
      cases hrest with
      | value htold' _ hs' =>
          exact .refused (htold'.trans (by rw [List.append_assoc]))
            (offer_append_of_error hoffer _) hs'.left
      | outOfFuel htold' =>
          exact .refusedOutOfFuel (htold'.trans (by rw [List.append_assoc]))
            (offer_append_of_error hoffer _)
      | refused _ hoffer' => simp at hoffer'
      | refusedOutOfFuel _ hoffer' => simp at hoffer'

/-- The recorder keeps the event, and the tracer is offered it. -/
theorem report {s : State (Recorder Tree)} {s' : State τ} (htold : s.tracer = some ⟨kept⟩)
    (h : Beside input s s') {start stop : Nat} (hstart : IsBoundary start input)
    (hstop : IsBoundary stop input) (event : Location → Event Tree) :
    Heeds input kept s'.tracer (runFrom s (ParseT.report start stop event : ParseM _ Unit))
      (runFrom s' (ParseT.report start stop event : ParseM τ Unit)) := by
  have hleft := h.left.counted hstop
  obtain rfl := h.left.input
  rw [runFrom_report_of_tracer h.left.cache htold hstart hstop]
  have hinput := h.right.input
  cases htracer : s'.tracer with
  | none =>
      rw [runFrom_report htracer]
      exact .value rfl (by rw [htracer]; rfl)
        ⟨hleft _ _, h.right, h.pos, h.furthest, h.silencers⟩
  | some t =>
      have hright := h.right.counted hstop
      rw [runFrom_report_of_tracer h.right.cache htracer (hinput ▸ hstart) (hinput ▸ hstop), hinput]
      dsimp only [Reply.result]
      generalize hevent : event ⟨.ofOffset s.input start, .ofOffset s.input stop⟩ = told
      cases hverdict : (trace t told).verdict with
      | ok =>
          refine .value rfl (by rw [offer, hverdict]; rfl) ⟨hleft _ _, ?_, h.pos, h.furthest,
            h.silencers⟩
          rw [hinput] at hright
          exact hright _ _
      | error e => exact .refused rfl (by rw [offer, hverdict]) (hleft _ _)

/-- The parses have ended alike, or the second with a refusal of something that was recorded. -/
theorem ended {a : α} {s : State (Recorder Tree)} (h : Heeds input kept tracer (.ok a, s) ry)
    (htold : s.tracer = some ⟨kept ++ E⟩) :
    (∃ s', ry = (.ok a, s') ∧ offer tracer E = (.ok (), s'.tracer)) ∨
      ∃ e s', ry = (.error (.refused e), s') ∧ offer tracer E = (.error e, s'.tracer) := by
  cases h with
  | value htold' hoffer =>
      rw [htold] at htold'
      cases List.append_cancel_left (congrArg Recorder.events (Option.some.inj htold'))
      exact .inl ⟨_, rfl, hoffer⟩
  | refused htold' hoffer =>
      rw [htold] at htold'
      cases List.append_cancel_left (congrArg Recorder.events (Option.some.inj htold'))
      exact .inr ⟨_, _, rfl, hoffer⟩

end Heeds

namespace Observed

variable {input : List Char}

protected theorem pure (a : α) :
    Observed input (pure a : ParseM (Recorder Tree) α) (pure a : ParseM τ α) := by
  intro kept s s' htold h
  exact .value (htold.trans (by rw [List.append_nil])) (offer_nil _) h

theorem outOfFuel :
    Observed input (throw .outOfFuel : ParseM (Recorder Tree) α)
      (throw .outOfFuel : ParseM τ α) := by
  intro kept s s' htold h
  exact .outOfFuel (htold.trans (by rw [List.append_nil])) (offer_nil _)

theorem bind {x : ParseM (Recorder Tree) α} {y : ParseM τ α} {f : α → ParseM (Recorder Tree) β}
    {g : α → ParseM τ β} (hxy : Observed input x y) (hfg : ∀ a, Observed input (f a) (g a)) :
    Observed input (x >>= f) (y >>= g) := by
  intro kept s s' htold h
  rw [runFrom_bind, runFrom_bind]
  exact (hxy kept s s' htold h).bind hfg

/-- An action that tells the tracer nothing. -/
theorem of_quiet {x : ParseM (Recorder Tree) α} {y : ParseM τ α} (hxy : Quiet input x y) :
    Observed input x y := by
  intro kept s s' htold h
  obtain ⟨a, s₁, s₁', hx, hy, htracer, htracer', h₁⟩ := hxy s s' h
  rw [hx, hy, ← htracer']
  exact .value (htracer.trans (htold.trans (by rw [List.append_nil]))) (offer_nil _) h₁

/-- The silencer that is added on both sides is taken away on both, also after a refusal. -/
theorem silenced {x : ParseM (Recorder Tree) α} {y : ParseM τ α} (hxy : Observed input x y) :
    Observed input (ParseT.silenced x) (ParseT.silenced y) := by
  intro kept s s' htold h
  have hend := hxy kept s.silence s'.silence htold
    ⟨h.left.silence, h.right.silence, h.pos, h.furthest, congrArg (· + 1) h.silencers⟩
  show Heeds input kept s'.tracer ((runFrom s.silence x).1, (runFrom s.silence x).2.unsilence)
    ((runFrom s'.silence y).1, (runFrom s'.silence y).2.unsilence)
  generalize runFrom s.silence x = r, runFrom s'.silence y = r' at hend
  cases hend with
  | value htold hoffer h₁ =>
      exact .value htold hoffer ⟨h₁.left.unsilence, h₁.right.unsilence, h₁.pos, h₁.furthest,
        congrArg (· - 1) h₁.silencers⟩
  | outOfFuel htold hoffer => exact .outOfFuel htold hoffer
  | refused htold hoffer hs => exact .refused htold hoffer hs.unsilence
  | refusedOutOfFuel htold hoffer => exact .refusedOutOfFuel htold hoffer

theorem named (description : String) {x : ParseM (Recorder Tree) (Option Tree)}
    {y : ParseM τ (Option Tree)} (hxy : Observed input x y) :
    Observed input (ParseT.named description x) (ParseT.named description y) := by
  refine hxy.silenced.bind fun result => ?_
  cases result with
  | none => exact (of_quiet (.fail _)).bind fun _ => .pure _
  | some value => exact .pure _

theorem sequence {x : ParseM (Recorder Tree) (Option (List Tree))}
    {y : ParseM τ (Option (List Tree))} (hxy : Observed input x y) :
    Observed input (Expression.sequence x) (Expression.sequence y) := by
  intro kept s s' htold h
  rw [Expression.sequence, Expression.sequence, runFrom_bind, runFrom_bind, runFrom_pos,
    runFrom_pos, andThen, andThen, h.pos]
  refine hxy.bind (fun result => ?_) kept s s' htold h
  cases result with
  | none => exact (of_quiet (.seek h.left.pos)).bind fun _ => .pure _
  | some values => exact .pure _

theorem rule (name : String) {x : ParseM (Recorder Tree) (Option Tree)}
    {y : ParseM τ (Option Tree)} (hxy : Observed input x y) :
    Observed input (ParseT.rule name x) (ParseT.rule name y) := by
  intro kept s s' htold h
  rw [ParseT.rule, ParseT.rule, runFrom_bind, runFrom_bind, runFrom_pos, runFrom_pos, andThen,
    andThen, h.pos, runFrom_bind, runFrom_bind]
  have hstart : IsBoundary s.pos input := h.left.pos
  refine (Heeds.report htold h hstart hstart _).bind fun _ => hxy.bind fun result => ?_
  intro kept₁ s₁ s₁' htold₁ h₁
  cases result with
  | none =>
      rw [runFrom_bind, runFrom_bind, runFrom_seek, runFrom_seek, andThen, andThen, runFrom_bind,
        runFrom_bind]
      have hback := h₁.goTo hstart
      exact (Heeds.report (s := { s₁ with pos := s.pos }) htold₁ hback hstart hstart _).bind
        fun _ => .pure _
  | some value =>
      rw [runFrom_bind, runFrom_bind, runFrom_pos, runFrom_pos, andThen, andThen, h₁.pos,
        runFrom_bind, runFrom_bind]
      exact (Heeds.report htold₁ h₁ hstart h₁.left.pos _).bind fun _ => .pure _

/-- Evaluation is observed. -/
theorem evalClosed :
    EvalClosed fun _ (x : ParseM (Recorder Tree) _) (y : ParseM τ _) => Observed input x y where
  pure := .pure
  bind := bind
  consume e := of_quiet (.consume e)
  sequence := sequence
  named description _ _ := named description

end Observed

namespace Grammar

theorem observed_evalRule (g : Grammar) (input : List Char) (fuel : Nat) (name : String) :
    Observed input (g.evalRule fuel name) (g.evalRule fuel name : ParseM τ _) := by
  induction fuel generalizing name with
  | zero => exact .outOfFuel
  | succ fuel ih =>
      rw [evalRule, evalRule]
      cases g.rule? name with
      | none => exact .pure _
      | some r => exact (Observed.evalClosed.eval ih r.expression).rule name

theorem observed_parseRule (g : Grammar) (input : List Char) (fuel : Nat) (name : String) :
    Observed input (g.parseRule fuel name) (g.parseRule fuel name : ParseM τ _) :=
  (g.observed_evalRule input fuel name).bind fun result => .of_quiet (.finish result)

/-! ## Whole parses -/

/-- The run of a parse from a start rule, with a tracer or without one. -/
def parseRun (g : Grammar) (fuel : Nat) (start input : String) (tracer : Option τ) :
    Except Halt (Except SyntaxError Tree) × State τ :=
  runFrom (State.init input tracer) (g.parseRule fuel start)

theorem heeds_parseRun (g : Grammar) (fuel : Nat) (start input : String) (tracer : Option τ) :
    Heeds input.toList [] tracer (g.parseRun fuel start input (some {}))
      (g.parseRun fuel start input tracer) :=
  g.observed_parseRule input.toList fuel start [] _ _ rfl
    ⟨.init input _, .init input tracer, rfl, rfl, rfl⟩

/-- A parse that ends without a tracer ends with a recorder, and with the same outcome. -/
theorem exists_recorded (g : Grammar) (fuel : Nat) (start input : String)
    (hends : (g.parseRun fuel start input (none : Option τ)).1 ≠ .error .outOfFuel) :
    ∃ outcome E s, g.parseRun fuel start input (some ({} : Recorder Tree)) = (.ok outcome, s) ∧
      s.tracer = some ⟨E⟩ ∧
      (g.parseRun fuel start input (none : Option τ)).1 = .ok outcome := by
  have h := g.heeds_parseRun fuel start input (none : Option τ)
  generalize g.parseRun fuel start input (some ({} : Recorder Tree)) = rx,
    g.parseRun fuel start input (none : Option τ) = ry at h hends
  cases h with
  | value htold => exact ⟨_, _, _, rfl, htold, rfl⟩
  | outOfFuel => exact absurd rfl hends
  | refused _ hoffer => simp at hoffer
  | refusedOutOfFuel _ hoffer => simp at hoffer

/-- Take a parse that ends without a tracer, and let `E` be what a recorder keeps of it.  With a
tracer that accepts everything the parse has the same outcome, and the tracer is told of `E`.  With
a tracer that accepts `n` events only it also has the same outcome, if `E` has no more.  Otherwise
its outcome is the refusal of the event after the first `n`, and the tracer was told of the events
up to this one and of none after it. -/
theorem tracers_observe (g : Grammar) (fuel : Nat) (start input : String)
    (hends : (g.parseRun fuel start input (none : Option τ)).1 ≠ .error .outOfFuel) :
    ∃ (outcome : Except SyntaxError Tree) (E : List (Event Tree)),
      (∃ s, g.parseRun fuel start input (some ({} : Recorder Tree)) = (.ok outcome, s) ∧
        s.tracer = some ⟨E⟩) ∧
      (g.parseRun fuel start input (none : Option τ)).1 = .ok outcome ∧
      (∀ t : τ, AcceptsAll Tree t → ∃ s,
        g.parseRun fuel start input (some t) = (.ok outcome, s) ∧
          s.tracer = some (told t E)) ∧
      ∀ (n : Nat) (t : τ), AcceptsOnly Tree n t →
        (E.length ≤ n → ∃ s,
          g.parseRun fuel start input (some t) = (.ok outcome, s) ∧
            s.tracer = some (told t E)) ∧
        ∀ _ : n < E.length, ∃ e s,
          (trace (told t (E.take n)) E[n]).verdict = .error e ∧
          g.parseRun fuel start input (some t) = (.error (.refused e), s) ∧
            s.tracer = some (told t (E.take (n + 1))) := by
  obtain ⟨outcome, E, s, hrun, htold, huntraced⟩ := g.exists_recorded fuel start input hends
  have hheeds : ∀ t : τ, Heeds input.toList [] (some t) (.ok outcome, s)
      (g.parseRun fuel start input (some t)) :=
    fun t => hrun ▸ g.heeds_parseRun fuel start input (some t)
  have haccepted : ∀ t : τ, Accepts t E → ∃ s', g.parseRun fuel start input (some t) =
      (.ok outcome, s') ∧ s'.tracer = some (told t E) := by
    intro t ht
    rcases (hheeds t).ended htold with ⟨s', hrun', hoffer⟩ | ⟨e, s', -, hoffer⟩
    · rw [ht.offer] at hoffer
      exact ⟨s', hrun', (congrArg Prod.snd hoffer).symm⟩
    · rw [ht.offer] at hoffer
      cases congrArg Prod.fst hoffer
  refine ⟨outcome, E, ⟨s, hrun, htold⟩, huntraced, fun t ht => haccepted t (ht E), ?_⟩
  intro n t ht
  refine ⟨fun hn => haccepted t (ht.accepts hn), fun hn => ?_⟩
  have hlength : (E.take n).length = n := List.length_take_of_le (Nat.le_of_lt hn)
  obtain ⟨e, he⟩ := ht.refuses hlength E[n]
  have hrefused := (ht.accepts (Nat.le_of_eq hlength)).offer_refused he (E.drop (n + 1))
  rw [List.getElem_cons_drop, List.take_append_drop, List.take_append_getElem] at hrefused
  rcases (hheeds t).ended htold with ⟨s', -, hoffer⟩ | ⟨e', s', hrun', hoffer⟩
  · rw [hrefused] at hoffer
    cases congrArg Prod.fst hoffer
  · rw [hrefused] at hoffer
    cases congrArg Prod.fst hoffer
    exact ⟨e, s', he, hrun', (congrArg Prod.snd hoffer).symm⟩

/-- Two letters, of which the first may also be a digit. -/
def spelled : Grammar where
  rules :=
    [⟨"s", .seq [.choice [.ref "digit" default, .ref "letter" default], .ref "letter" default],
        default⟩,
      ⟨"digit", .charClass ⟨[.range '0' '9'], false, false⟩, default⟩,
      ⟨"letter", .named "letter" .any, default⟩]

theorem tracers_observe_spelled :
    (spelled.parseRun 3 "s" "ab" (none : Option (Quota Tree))).1 ≠ .error .outOfFuel ∧
    ∃ (E : List (Event Tree)) (s : State (Recorder Tree)) (e : TraceError)
      (s' : State (Quota Tree)),
      (spelled.parseRun 3 "s" "ab" (some {})).2 = s ∧ s.tracer = some ⟨E⟩ ∧ E.length = 8 ∧
      spelled.parseRun 3 "s" "ab" (some ⟨2, []⟩) = (.error (.refused e), s') ∧
      s'.tracer.map Quota.offered = some (E.take 3) := by
  have hvalue :
      (spelled.parseRun 3 "s" "ab" (none : Option (Quota Tree))).1.toOption.isSome = true := by
    decide +kernel
  have hends :
      (spelled.parseRun 3 "s" "ab" (none : Option (Quota Tree))).1 ≠ .error .outOfFuel := by
    intro h
    rw [h] at hvalue
    cases hvalue
  have hcount : (spelled.parseRun 3 "s" "ab" (some ({} : Recorder Tree))).2.tracer.map
      (·.events.length) = some 8 := by decide +kernel
  obtain ⟨outcome, E, ⟨s, hrun, htold⟩, -, -, hquota⟩ := tracers_observe spelled 3 "s" "ab" hends
  rw [hrun, htold] at hcount
  have hlength : E.length = 8 := Option.some.inj hcount
  obtain ⟨e, s', -, hrefused, hoffered⟩ :=
    (hquota 2 ⟨2, []⟩ (Quota.acceptsOnly ⟨2, []⟩)).2 (by omega)
  refine ⟨hends, E, s, e, s', by rw [hrun], htold, hlength, hrefused, ?_⟩
  rw [hoffered, Option.map_some, Quota.offered_told, List.nil_append]

end Grammar

end PegGen
