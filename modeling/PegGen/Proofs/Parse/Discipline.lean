import PegGen.Proofs.Grammar.EvalRun
import PegGen.Proofs.Parse.PositionCache

/-!
# Disciplined runs

A client is disciplined in a run if it goes only to offsets where the state has stood before, and
asks for positions of such offsets only.  Then the state always stands on boundaries of the input,
and nothing is ever read at a bad offset.

Matching moves the offset past the text that was matched, whole characters in whatever way they were
matched.  The furthest failure and the cache copy offsets that the state has stood at, or ones past
a whole character.  So the invariant of a run is that these three are boundaries, at the present and
at every moment before (`Grounded`).  From such a state every step has a result.
-/

namespace PegGen

open Text WatchedM

variable {τ V α β : Type}

/-! ## Steps from boundaries -/

/-- A failure is recorded where it was, or nothing is. -/
theorem Furthest.pos_record (f : Furthest) (pos : Nat) (e : Expectation) :
    (f.record pos e).pos = f.pos ∨ (f.record pos e).pos = pos := by
  rw [record]
  split
  · exact .inl rfl
  · split
    · exact .inr rfl
    · exact .inl rfl

/-- The offsets that a state holds. -/
def State.offsets (s : State τ) : List Nat :=
  [s.pos, s.furthest.pos, s.cache.1]

/-- The state when a parse is finished: a value before the end is a failure to find the end. -/
def State.finished (s : State τ) : Option V → State τ
  | some _ => if s.pos = byteLength s.input then s else s.fail .endOfInput
  | none => s

@[simp] theorem State.tracer_finished (s : State τ) (result : Option V) :
    (s.finished result).tracer = s.tracer := by
  cases result with
  | none => rfl
  | some value =>
      rw [finished]
      split
      · rfl
      · exact s.tracer_fail .endOfInput

/-- What comes of finishing a parse: its value at the end of the input, or the error at the furthest
failure. -/
def State.outcome (s : State τ) : Option V → Except SyntaxError V
  | some value =>
      if s.pos = byteLength s.input then .ok value
      else .error ((s.fail .endOfInput).furthest.error s.input)
  | none => .error (s.furthest.error s.input)

/-- A state over the text all of whose offsets are boundaries. -/
structure State.OnBoundaries (text : List Char) (s : State τ) : Prop extends s.Counts text where
  pos : IsBoundary s.pos text
  furthest : IsBoundary s.furthest.pos text

namespace State.OnBoundaries

variable {input : List Char} {s s' : State τ}

/-- A parse begins on boundaries. -/
theorem init (input : String) (tracer : Option τ) :
    (State.init input tracer).OnBoundaries input.toList :=
  ⟨⟨rfl, cacheExact_init input tracer⟩, .zero _, .zero _⟩

/-- All offsets that such a state holds are boundaries of the input. -/
theorem offsets (hs : s.OnBoundaries input) : ∀ offset ∈ s.offsets,
    IsBoundary offset input ∧ offset ≤ byteLength input := by
  have hcache : IsBoundary s.cache.1 input := hs.input ▸ hs.cache.isBoundary
  have hoffsets : ∀ offset ∈ s.offsets, IsBoundary offset input := by
    simp [State.offsets, hs.pos, hs.furthest, hcache]
  exact fun offset hoffset => ⟨hoffsets offset hoffset, (hoffsets offset hoffset).le_byteLength⟩

/-- The furthest failure moves to where the state stands, if it moves. -/
theorem fail (hs : s.OnBoundaries input) (e : Expectation) :
    (s.fail e).OnBoundaries input := by
  refine ⟨hs.toCounts.fail e, by simpa using hs.pos, ?_⟩
  rw [State.fail]
  split
  · show IsBoundary (s.furthest.record s.pos e).pos input
    rcases s.furthest.pos_record s.pos e with h | h
    · rw [h]
      exact hs.furthest
    · rw [h]
      exact hs.pos
  · exact hs.furthest

theorem goTo (hs : s.OnBoundaries input) {pos : Nat} (hpos : IsBoundary pos input) :
    OnBoundaries input { s with pos := pos } :=
  ⟨⟨hs.input, hs.cache.isBoundary, hs.cache.position⟩, hpos, hs.furthest⟩

/-- The cache is about a boundary after a position was asked for at one. -/
theorem counted (hs : s.OnBoundaries input) {offset : Nat} (hoffset : IsBoundary offset input)
    (log : List LogRecord) (tracer : Option τ) :
    OnBoundaries input { s with
      cache := (offset, .ofOffset s.input offset), log := log, tracer := tracer } :=
  ⟨⟨hs.input, hs.input ▸ hoffset, rfl⟩, hs.pos, hs.furthest⟩

theorem silence (hs : s.OnBoundaries input) : s.silence.OnBoundaries input :=
  ⟨⟨hs.input, hs.cache.isBoundary, hs.cache.position⟩, hs.pos, hs.furthest⟩

theorem unsilence (hs : s.OnBoundaries input) : s.unsilence.OnBoundaries input :=
  ⟨⟨hs.input, hs.cache.isBoundary, hs.cache.position⟩, hs.pos, hs.furthest⟩

/-- From a boundary on the input can be read. -/
theorem rest? (hs : s.OnBoundaries input) :
    ∃ before rest, input = before ++ rest ∧ byteLength before = s.pos ∧ s.rest? = some rest := by
  obtain ⟨before, rest, hinput, hlength⟩ := hs.pos
  exact ⟨before, rest, hinput, hlength,
    dropBytes?_eq_some_iff.2 ⟨before, hs.input.trans hinput, hlength⟩⟩

/-- A leaf that is looked for at a boundary is found or not, and what is taken is whole
characters. -/
theorem consume? (hs : s.OnBoundaries input) (e : Expectation) :
    ∃ r s', s.consume? e = some (r, s') ∧ s'.OnBoundaries input := by
  obtain ⟨before, rest, hinput, hlength, hrest⟩ := hs.rest?
  rw [State.consume?, hrest, Option.map_some]
  cases hmatched : e.matched? rest with
  | none => exact ⟨_, _, rfl, hs.fail e⟩
  | some text =>
      obtain ⟨after, rfl⟩ := Expectation.exists_append_of_matched? hmatched
      refine ⟨_, _, rfl, hs.goTo ⟨before ++ text, after, ?_, ?_⟩⟩
      · simpa using hinput
      · simp [hlength]

/-- A boundary has a position. -/
theorem position? (hs : s.OnBoundaries input) {offset : Nat} (hoffset : IsBoundary offset input) :
    ∃ p s', s.position? offset = some (p, s') ∧ s'.OnBoundaries input := by
  have hboundary : IsBoundary offset s.input := hs.input ▸ hoffset
  have hmin := Nat.min_eq_left hboundary.le_byteLength
  exact ⟨_, _, State.position?_of_isBoundary hs.cache hmin hboundary,
    hs.counted hoffset s.log s.tracer⟩

/-- Two boundaries have a location. -/
theorem location? (hs : s.OnBoundaries input) {start stop : Nat} (hstart : IsBoundary start input)
    (hstop : IsBoundary stop input) :
    ∃ l s', s.location? start stop = some (l, s') ∧ s'.OnBoundaries input :=
  ⟨_, _, State.location?_of_isBoundary hs.cache (hs.input ▸ hstart) (hs.input ▸ hstop),
    hs.counted hstop s.log s.tracer⟩

/-- At a boundary the error is the one counted from the start. -/
theorem error?_eq (hs : s.OnBoundaries input) :
    ∃ cache log, s.error? = some (s.furthest.error input, { s with cache := cache, log := log }) ∧
      OnBoundaries input { s with cache := cache, log := log } := by
  obtain ⟨before, rest, hinput, hlength⟩ := hs.furthest
  obtain ⟨log, herror⟩ := State.error?_of_split hs.cache (hs.input.trans hinput) hlength rfl
  refine ⟨_, log, ?_, hs.counted (isBoundary_after_head hinput hlength) log s.tracer⟩
  rw [herror, Furthest.error_of_split hinput hlength, hs.input]

/-- A parse that does not end at the end of the input has the error of its furthest failure. -/
theorem finish?_eq (hs : s.OnBoundaries input) (result : Option V) :
    ∃ cache log, s.finish? result = some (s.outcome result,
        { s.finished result with cache := cache, log := log }) ∧
      OnBoundaries input { s.finished result with cache := cache, log := log } := by
  obtain rfl := hs.input
  cases result with
  | none =>
      obtain ⟨cache, log, h, hs'⟩ := hs.error?_eq
      exact ⟨cache, log, by rw [State.finish?, h]; rfl, hs'⟩
  | some value =>
      rw [State.finish?, State.outcome, State.finished]
      split
      · exact ⟨s.cache, s.log, rfl, hs⟩
      · obtain ⟨cache, log, h, hs'⟩ := (hs.fail .endOfInput).error?_eq
        exact ⟨cache, log, by rw [h]; rfl, hs'⟩

/-- There is an error at the furthest failure. -/
theorem error? (hs : s.OnBoundaries input) :
    ∃ e s', s.error? = some (e, s') ∧ s'.OnBoundaries input := by
  obtain ⟨cache, log, h, hs'⟩ := hs.error?_eq
  exact ⟨_, _, h, hs'⟩

/-- A parse can be finished. -/
theorem finish? (hs : s.OnBoundaries input) (result : Option V) :
    ∃ r s', s.finish? result = some (r, s') ∧ s'.OnBoundaries input := by
  obtain ⟨cache, log, h, hs'⟩ := hs.finish?_eq result
  exact ⟨_, _, h, hs'⟩

end State.OnBoundaries

/-! ## What a client asks for -/

/-- The state stood at the offset at some moment. -/
def StoodAt (h : List (Moment τ)) (offset : Nat) : Prop :=
  ∃ m ∈ h, m.state.pos = offset

instance (h : List (Moment τ)) (offset : Nat) : Decidable (StoodAt h offset) :=
  List.decidableBEx (fun m : Moment τ => m.state.pos = offset) h

namespace Client

/-- What comes after a call that gives an answer. -/
def after (next : α → State τ → List (Moment τ) → List β) :
    (Except Halt α × State τ) × List (Moment τ) → List β
  | ((.ok a, s), h) => next a s h
  | ((.error _, _), _) => []

/-- The offsets that a client goes to or asks about when it runs from a state and a history, each
with the history up to then. -/
def requests [Tracer τ V] (depth : Nat) :
    Client τ V → State τ → List (Moment τ) → List (List (Moment τ) × Nat)
  | .done _, _, _ => []
  | .look next, s, h => (next s).requests depth s h
  | .seek pos next, s, h =>
      (h, pos) :: after (fun _ s h => next.requests depth s (h ++ [⟨depth, none, s⟩]))
        (runFrom s h (ParseT.seek pos))
  | .fail e next, s, h =>
      let raised := some (s.pos, e)
      after (fun _ s h => next.requests depth s (h ++ [⟨depth, raised, s⟩]))
        (runFrom s h (ParseT.fail e))
  | .consume e next, s, h =>
      let raised := some (s.pos, e)
      after (fun taken s h => (next taken).requests depth s
          (h ++ [⟨depth, if taken.isNone then raised else none, s⟩]))
        (runFrom s h (ParseT.consume e))
  | .position offset next, s, h =>
      (h, offset) :: after (fun p s h => (next p).requests depth s (h ++ [⟨depth, none, s⟩]))
        (runFrom s h (ParseT.position offset))
  | .location start stop next, s, h =>
      (h, start) :: (h, stop) ::
        after (fun l s h => (next l).requests depth s (h ++ [⟨depth, none, s⟩]))
          (runFrom s h (ParseT.location start stop))
  | .error next, s, h =>
      after (fun e s h => (next e).requests depth s (h ++ [⟨depth, none, s⟩]))
        (runFrom s h ParseT.error)
  | .silenced body next, s, h =>
      body.requests (depth + 1) s.silence (h ++ [⟨depth + 1, none, s.silence⟩]) ++
        after (fun answer s h => (next answer).requests depth s (h ++ [⟨depth, none, s⟩]))
          (runFrom s h (attempt (ParseT.silenced (begun (depth + 1) (body.run (depth + 1))))))
  | .rule name body next, s, h =>
      after (fun _ s h => body.requests depth s (h ++ [⟨depth, none, s⟩]))
          (runFrom s h (ParseT.report (V := V) s.pos s.pos (.enter name))) ++
        after (fun answer s h => (next answer).requests depth s (h ++ [⟨depth, none, s⟩]))
          (runFrom s h (attempt (ParseT.rule name (begun depth (body.run depth)))))
  | .named description body next, s, h =>
      body.requests (depth + 1) s.silence (h ++ [⟨depth + 1, none, s.silence⟩]) ++
        after (fun answer s h => (next answer).requests depth s
            (h ++ [⟨depth, if foundNothing answer then some (s.pos, .other description) else none,
              s⟩]))
          (runFrom s h
            (attempt (ParseT.named description (begun (depth + 1) (body.run (depth + 1))))))

/-- In its run over the input the client goes to and asks about offsets only where the state has
stood. -/
def Disciplined [Tracer τ V] (c : Client τ V) (input : String) (tracer : Option τ) : Prop :=
  ∀ r ∈ c.requests 0 (State.init input tracer) [⟨0, none, State.init input tracer⟩],
    StoodAt r.1 r.2

instance [Tracer τ V] (c : Client τ V) (input : String) (tracer : Option τ) :
    Decidable (c.Disciplined input tracer) :=
  List.decidableBAll (fun r : List (Moment τ) × Nat => StoodAt r.1 r.2) _

end Client

/-! ## Runs -/

/-- A state on boundaries after moments on boundaries. -/
def Grounded (input : List Char) (s : State τ) (h : List (Moment τ)) : Prop :=
  s.OnBoundaries input ∧ ∀ m ∈ h, m.state.OnBoundaries input

namespace Grounded

variable {input : List Char} {s : State τ} {h : List (Moment τ)}

theorem note (hs : Grounded input s h) (depth : Nat) (raised : Option (Nat × Expectation)) :
    Grounded input s (h ++ [⟨depth, raised, s⟩]) :=
  ⟨hs.1, List.forall_mem_append.2 ⟨hs.2, List.forall_mem_singleton.2 hs.1⟩⟩

/-- Where the state has stood is a boundary. -/
theorem stoodAt (hs : Grounded input s h) {offset : Nat} (ho : StoodAt h offset) :
    IsBoundary offset input := by
  obtain ⟨m, hm, rfl⟩ := ho
  exact (hs.2 m hm).pos

end Grounded

/-- A run that has ended on boundaries, with an answer or with the refusal of a tracer.  There is no
ending for a bad offset. -/
inductive EndsGrounded (input : List Char) :
    (Except Halt α × State τ) × List (Moment τ) → Prop where
  | answer : Grounded input s h → EndsGrounded input ((.ok a, s), h)
  | refused : Grounded input s h → EndsGrounded input ((.error (.refused e), s), h)

namespace EndsGrounded

variable {input : List Char} {s : State τ} {h : List (Moment τ)} {x : WatchedM τ α}

theorem grounded {r : (Except Halt α × State τ) × List (Moment τ)} (hr : EndsGrounded input r) :
    Grounded input r.1.2 r.2 := by
  cases hr with
  | answer hs => exact hs
  | refused hs => exact hs

/-- No such run ends at an offset that cannot be read. -/
theorem ne_badOffset {r : (Except Halt α × State τ) × List (Moment τ)}
    (hr : EndsGrounded input r) : r.1.1 ≠ .error .badOffset := by
  cases hr with
  | answer hs => exact nofun
  | refused hs => exact nofun

/-- What follows need only be looked at from states that a run really comes to. -/
theorem bind {f : α → WatchedM τ β} (hx : EndsGrounded input (runFrom s h x))
    (hf : ∀ a s' h', runFrom s h x = ((.ok a, s'), h') → Grounded input s' h' →
      EndsGrounded input (runFrom s' h' (f a))) :
    EndsGrounded input (runFrom s h (x >>= f)) := by
  rw [runFrom_bind]
  generalize hr : runFrom s h x = r at hx
  cases hx with
  | answer hs => exact hf _ _ _ hr hs
  | refused hs => exact .refused hs

/-- A refusal that is dealt with leaves the state as it is. -/
theorem attempt (hx : EndsGrounded input (runFrom s h x)) :
    EndsGrounded input (runFrom s h (attempt x)) := by
  rw [runFrom_attempt]
  generalize runFrom s h x = r at hx
  cases hx with
  | answer hs => exact .answer hs
  | refused hs => exact .answer hs

/-- A step that has a result on boundaries. -/
theorem ofStep {f : State τ → Option (α × State τ)} (hs : Grounded input s h)
    (hf : ∃ a s', f s = some (a, s') ∧ s'.OnBoundaries input) :
    EndsGrounded input (runFrom s h (ParseT.ofStep f)) := by
  obtain ⟨a, s', hstep, hs'⟩ := hf
  rw [runFrom_ofStep, hstep]
  exact .answer ⟨hs', hs.2⟩

theorem silenced (hx : EndsGrounded input (runFrom s.silence h x)) :
    EndsGrounded input (runFrom s h (ParseT.silenced x)) := by
  show EndsGrounded input (((runFrom s.silence h x).1.1, (runFrom s.silence h x).1.2.unsilence),
    (runFrom s.silence h x).2)
  generalize runFrom s.silence h x = r at hx
  cases hx with
  | answer hs => exact .answer ⟨hs.1.unsilence, hs.2⟩
  | refused hs => exact .refused ⟨hs.1.unsilence, hs.2⟩

theorem named (description : String) {x : WatchedM τ (Option V)}
    (hx : EndsGrounded input (runFrom s.silence h x)) :
    EndsGrounded input (runFrom s h (ParseT.named description x)) := by
  refine hx.silenced.bind fun result s₁ h₁ _ hs₁ => ?_
  cases result with
  | none => exact .answer ⟨hs₁.1.fail (.other description), hs₁.2⟩
  | some value => exact .answer hs₁

/-- The moment that is noted is the present one, which is grounded. -/
theorem noteThen {depth : Nat} {raised : Option (Nat × Expectation)}
    (hx : EndsGrounded input (runFrom s (h ++ [⟨depth, raised, s⟩]) x)) :
    EndsGrounded input (runFrom s h (note depth raised >>= fun _ => x)) :=
  hx

theorem modify {f : State τ → State τ} (hs : Grounded input (f s) h) :
    EndsGrounded input (runFrom s h (modify f)) :=
  .answer hs

theorem fail (hs : Grounded input s h) (e : Expectation) :
    EndsGrounded input (runFrom s h (ParseT.fail e)) :=
  modify ⟨hs.1.fail e, hs.2⟩

/-- Going to a boundary is safe. -/
theorem seek (hs : Grounded input s h) {pos : Nat} (hpos : IsBoundary pos input) :
    EndsGrounded input (runFrom s h (ParseT.seek pos)) :=
  modify ⟨hs.1.goTo hpos, hs.2⟩

/-! Reading the state or its offset changes nothing. -/

theorem bindGet {f : State τ → WatchedM τ α} (hf : EndsGrounded input (runFrom s h (f s))) :
    EndsGrounded input (runFrom s h (get >>= f)) :=
  hf

theorem bindPos {f : Nat → WatchedM τ α} (hf : EndsGrounded input (runFrom s h (f s.pos))) :
    EndsGrounded input (runFrom s h (ParseT.pos >>= f)) :=
  hf

section Tracing

variable [Tracer τ V]

/-- A tracer is told of what is there already. -/
theorem tell (hs : Grounded input s h) (event : Event V) :
    EndsGrounded input (runFrom s h (ParseT.tell event)) := by
  refine bindGet ?_
  cases s.tracer with
  | none => exact .answer hs
  | some tracer =>
      have htold : Grounded input { s with
          tracer := some (Tracer.trace tracer event).next
          log := s.log ++ (Tracer.trace tracer event).notes } h :=
        ⟨⟨⟨hs.1.input, hs.1.cache.isBoundary, hs.1.cache.position⟩, hs.1.pos, hs.1.furthest⟩, hs.2⟩
      refine (modify htold).bind fun _ s₁ h₁ _ hs₁ => ?_
      cases (Tracer.trace tracer event).verdict with
      | ok => exact .answer hs₁
      | error e => exact .refused hs₁

/-- Between boundaries there is a location to report. -/
theorem report (hs : Grounded input s h) {start stop : Nat} (hstart : IsBoundary start input)
    (hstop : IsBoundary stop input) (event : Location → Event V) :
    EndsGrounded input (runFrom s h (ParseT.report start stop event)) := by
  refine bindGet ?_
  split
  · exact (ofStep hs (hs.1.location? hstart hstop)).bind fun l s₁ h₁ _ hs₁ => tell hs₁ (event l)
  · exact .answer hs

/-- A rule invocation, whose body begins where the tracer was told of it. -/
theorem rule (name : String) {x : WatchedM τ (Option V)} (hs : Grounded input s h)
    (hx : ∀ s' h', runFrom s h (ParseT.report (V := V) s.pos s.pos (.enter name)) =
      ((.ok (), s'), h') → Grounded input s' h' → EndsGrounded input (runFrom s' h' x)) :
    EndsGrounded input (runFrom s h (ParseT.rule name x)) := by
  refine bindPos ((report hs hs.1.pos hs.1.pos _).bind fun _ s₁ h₁ hreport hs₁ => ?_)
  refine (hx s₁ h₁ hreport hs₁).bind fun result s₂ h₂ _ hs₂ => ?_
  cases result with
  | none =>
      refine (seek hs₂ hs.1.pos).bind fun _ s₃ h₃ _ hs₃ => ?_
      exact (report hs₃ hs.1.pos hs.1.pos _).bind fun _ s₄ h₄ _ hs₄ => .answer hs₄
  | some value =>
      exact bindPos ((report hs₂ hs.1.pos hs₂.1.pos _).bind fun _ s₃ h₃ _ hs₃ => .answer hs₃)

end Tracing

end EndsGrounded

namespace Client

theorem forall_mem_after {next : α → State τ → List (Moment τ) → List β} {P : β → Prop}
    {r : (Except Halt α × State τ) × List (Moment τ)} (h : ∀ b ∈ after next r, P b) {a : α}
    {s : State τ} {h' : List (Moment τ)} (hr : r = ((.ok a, s), h')) : ∀ b ∈ next a s h', P b := by
  subst hr
  exact h

variable [Tracer τ V] {input : List Char}

/-- A run all of whose requests are of offsets where the state has stood keeps to boundaries. -/
theorem endsGrounded_run (c : Client τ V) {depth : Nat} {s : State τ} {h : List (Moment τ)}
    (hc : ∀ r ∈ c.requests depth s h, StoodAt r.1 r.2) (hs : Grounded input s h) :
    EndsGrounded input (runFrom s h (c.run depth)) := by
  induction c generalizing depth s h with
  | done ending =>
      cases ending with
      | ok result => exact .answer hs
      | error e => exact .refused hs
  | look next ih => exact ih s hc hs
  | seek pos next ih =>
      obtain ⟨hpos, hnext⟩ := List.forall_mem_cons.1 hc
      refine (EndsGrounded.seek hs (hs.stoodAt hpos)).bind fun _ s₁ h₁ hrun hs₁ => .noteThen ?_
      exact ih (forall_mem_after hnext hrun) (hs₁.note _ _)
  | fail e next ih =>
      rw [requests] at hc
      refine .bindPos ((EndsGrounded.fail hs e).bind fun _ s₁ h₁ hrun hs₁ => .noteThen ?_)
      exact ih (forall_mem_after hc hrun) (hs₁.note _ _)
  | consume e next ih =>
      rw [requests] at hc
      have hconsume := EndsGrounded.ofStep hs (hs.1.consume? e)
      refine .bindPos (hconsume.bind fun taken s₁ h₁ hrun hs₁ => .noteThen ?_)
      exact ih taken (forall_mem_after hc hrun) (hs₁.note _ _)
  | position offset next ih =>
      obtain ⟨hoffset, hnext⟩ := List.forall_mem_cons.1 hc
      have hposition := EndsGrounded.ofStep hs (hs.1.position? (hs.stoodAt hoffset))
      refine hposition.bind fun p s₁ h₁ hrun hs₁ => .noteThen ?_
      exact ih p (forall_mem_after hnext hrun) (hs₁.note _ _)
  | location start stop next ih =>
      obtain ⟨hstart, hrest⟩ := List.forall_mem_cons.1 hc
      obtain ⟨hstop, hnext⟩ := List.forall_mem_cons.1 hrest
      have hlocation := EndsGrounded.ofStep hs
        (hs.1.location? (hs.stoodAt hstart) (hs.stoodAt hstop))
      refine hlocation.bind fun l s₁ h₁ hrun hs₁ => .noteThen ?_
      exact ih l (forall_mem_after hnext hrun) (hs₁.note _ _)
  | error next ih =>
      rw [requests] at hc
      have herror := EndsGrounded.ofStep hs hs.1.error?
      refine herror.bind fun e s₁ h₁ hrun hs₁ => .noteThen ?_
      exact ih e (forall_mem_after hc hrun) (hs₁.note _ _)
  | silenced body next ihbody ih =>
      obtain ⟨hbody, hnext⟩ := List.forall_mem_append.1 hc
      have hsilent : Grounded input s.silence h := ⟨hs.1.silence, hs.2⟩
      have hend := ihbody hbody (hsilent.note _ _)
      refine hend.noteThen.silenced.attempt.bind fun answer s₁ h₁ hrun hs₁ => .noteThen ?_
      exact ih answer (forall_mem_after hnext hrun) (hs₁.note _ _)
  | rule name body next ihbody ih =>
      obtain ⟨hbody, hnext⟩ := List.forall_mem_append.1 hc
      have hend := EndsGrounded.rule name hs fun s₁ h₁ hrun hs₁ =>
        (ihbody (forall_mem_after hbody hrun) (hs₁.note _ _)).noteThen
      refine hend.attempt.bind fun answer s₁ h₁ hrun hs₁ => .noteThen ?_
      exact ih answer (forall_mem_after hnext hrun) (hs₁.note _ _)
  | named description body next ihbody ih =>
      obtain ⟨hbody, hnext⟩ := List.forall_mem_append.1 hc
      have hsilent : Grounded input s.silence h := ⟨hs.1.silence, hs.2⟩
      have hend := ihbody hbody (hsilent.note _ _)
      refine (hend.noteThen.named description).attempt.bind fun answer s₁ h₁ hrun hs₁ => ?_
      refine .bindPos (.noteThen ?_)
      exact ih answer (forall_mem_after hnext hrun) (hs₁.note _ _)

end Client

/-- In a disciplined run every offset that the state holds is a boundary at every moment, and the
input can be read there.  The run does not end at a bad offset, and from where it ends a parse can
be finished with any result. -/
theorem disciplined_safe [Tracer τ V] (c : Client τ V) (input : String) (tracer : Option τ)
    (hc : c.Disciplined input tracer) :
    (∀ m ∈ c.history input tracer,
      (∀ offset ∈ m.state.offsets,
        IsBoundary offset input.toList ∧ offset ≤ byteLength input.toList) ∧
      ∃ rest, m.state.rest? = some rest) ∧
    ∃ ending s, runFrom (State.init input tracer) [] (begun 0 (c.run 0)) =
        ((ending, s), c.history input tracer) ∧
      ending ≠ .error .badOffset ∧
      ∀ result : Option V, ∃ r s', s.finish? result = some (r, s') ∧
        ∀ offset ∈ s'.offsets,
          IsBoundary offset input.toList ∧ offset ≤ byteLength input.toList := by
  have hinit : Grounded input.toList (State.init input tracer) [] :=
    ⟨.init input tracer, fun _ hm => absurd hm List.not_mem_nil⟩
  have hrun : EndsGrounded _ (runFrom (State.init input tracer) [] (begun 0 (c.run 0))) :=
    .noteThen (c.endsGrounded_run hc (hinit.note 0 none))
  obtain ⟨hs, hh⟩ := hrun.grounded
  constructor
  · intro m hm
    obtain ⟨-, rest, -, -, hrest⟩ := (hh m hm).rest?
    exact ⟨(hh m hm).offsets, rest, hrest⟩
  · refine ⟨_, _, rfl, hrun.ne_badOffset, fun result => ?_⟩
    obtain ⟨r, s', hfinish, hs'⟩ := hs.finish? result
    exact ⟨r, s', hfinish, hs'.offsets⟩

/-- Goes back over characters of two to four bytes, in a rule that fails past them and out of it,
and asks where it was. -/
def Client.wandering : Client (Recorder Unit) Unit :=
  .rule "wide" (.consume (.literal "ß→" true) fun _ => .look fun s =>
      .consume .any fun _ => .location 0 s.pos fun _ => .done (.ok none)) fun _ =>
    .seek 5 (.consume .any fun _ => .position 5 fun _ => .fail .endOfInput
      (.error fun _ => .done (.ok (some ()))))

theorem disciplined_safe_wandering :
    Client.wandering.Disciplined "ß→😀x" (some {}) ∧
      (∃ m ∈ Client.wandering.history "ß→😀x" (some {}), m.state.offsets = [9, 9, 10]) ∧
      ∀ m ∈ Client.wandering.history "ß→😀x" (some {}), ∃ rest, m.state.rest? = some rest := by
  have hdisciplined : Client.wandering.Disciplined "ß→😀x" (some {}) := by decide +kernel
  refine ⟨hdisciplined, ?_, fun m hm => ((disciplined_safe _ _ _ hdisciplined).1 m hm).2⟩
  have hlast : (Client.wandering.history "ß→😀x" (some {})).getLast?.map (·.state.offsets) =
      some [9, 9, 10] := by decide +kernel
  obtain ⟨m, hm, hoffsets⟩ := Option.map_eq_some_iff.1 hlast
  exact ⟨m, List.mem_of_getLast? hm, hoffsets⟩

end PegGen
