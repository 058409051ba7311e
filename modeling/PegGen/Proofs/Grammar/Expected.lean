import PegGen.Grammar.Pool
import PegGen.Proofs.Grammar.Congruence
import PegGen.Proofs.Grammar.Yield
import PegGen.Proofs.Parse.Discipline

/-!
# Syntax errors say what was expected

A parse of a well-formed grammar that fails has an error with something in its list of what was
expected, and all of it is in the pool of the grammar.

Whatever gives nothing has raised a failure, as long as failures are not silenced.  A leaf and a
named expression raise their own, a sequence has that of the item that gave nothing, a choice has
those of its items, of which there is one at least, and a reference has that of the rule, which is
there.  A failure that comes too early to be noted leaves what was noted before, further on
(`Informed.ne_nil_fail`).  The failures raised are expectations of nodes that the traversal of the
grammar meets, which is where the pool is from.
-/

namespace PegGen

open Text ParseT

variable {τ V α : Type} {pool : OrderedSet Expectation} {input : List Char}

/-! ## States that know what was expected -/

/-- A state on boundaries.  What it takes for expected is in the pool, and there is something unless
no failure was noted past the start. -/
structure State.Informed (pool : OrderedSet Expectation) (input : List Char) (s : State τ) : Prop
    extends s.OnBoundaries input where
  mem_pool : ∀ x ∈ s.furthest.expected, x ∈ pool
  ne_nil : s.furthest.pos ≠ 0 → s.furthest.expected.toList ≠ []

namespace State.Informed

variable {s s' : State τ}

theorem init (input : String) (tracer : Option τ) :
    (State.init input tracer).Informed pool input.toList :=
  ⟨OnBoundaries.init input tracer, fun _ hx => absurd hx List.not_mem_nil, fun h => absurd rfl h⟩

/-- A state that differs in what reports touch. -/
theorem aside (hs : s.Informed pool input) (hfollows : s.Follows s')
    (haside : ∃ cache tracer log, s' = { s with cache := cache, tracer := tracer, log := log }) :
    s'.Informed pool input := by
  obtain ⟨cache, tracer, log, rfl⟩ := haside
  exact ⟨⟨⟨hs.input, hfollows.cache⟩, hs.pos, hs.furthest⟩, hs.mem_pool, hs.ne_nil⟩

theorem goTo (hs : s.Informed pool input) {pos : Nat} (hpos : IsBoundary pos input) :
    Informed pool input { s with pos := pos } :=
  ⟨hs.toOnBoundaries.goTo hpos, hs.mem_pool, hs.ne_nil⟩

theorem silence (hs : s.Informed pool input) : s.silence.Informed pool input :=
  ⟨hs.toOnBoundaries.silence, hs.mem_pool, hs.ne_nil⟩

theorem unsilence (hs : s.Informed pool input) : s.unsilence.Informed pool input :=
  ⟨hs.toOnBoundaries.unsilence, hs.mem_pool, hs.ne_nil⟩

end State.Informed

namespace Furthest

variable {f : Furthest} {pos : Nat} {e : Expectation}

theorem mem_record {x : Expectation} (hx : x ∈ (f.record pos e).expected) :
    x ∈ f.expected ∨ x = e := by
  rw [record] at hx
  split at hx
  · exact .inl hx
  · split at hx
    · rcases OrderedSet.mem_insert.1 hx with hx | hx
      · exact absurd hx List.not_mem_nil
      · exact .inr hx
    · exact OrderedSet.mem_insert.1 hx

/-- After a failure something is expected: at its place, or further on. -/
theorem ne_nil_record (hf : f.pos ≠ 0 → f.expected.toList ≠ []) :
    (f.record pos e).expected.toList ≠ [] := by
  rw [record]
  split
  next hnearer => exact hf (Nat.ne_of_gt (Nat.zero_lt_of_lt hnearer))
  next =>
    split
    · exact OrderedSet.toList_insert_ne_nil _ e
    · exact OrderedSet.toList_insert_ne_nil f.expected e

end Furthest

namespace State.Informed

variable {s : State τ} {e : Expectation}

theorem fail (hs : s.Informed pool input) (he : e ∈ pool) : (s.fail e).Informed pool input := by
  refine ⟨hs.toOnBoundaries.fail e, ?_, ?_⟩
  · rw [State.fail]
    split
    · intro x hx
      rcases Furthest.mem_record hx with hx | rfl
      · exact hs.mem_pool x hx
      · exact he
    · exact hs.mem_pool
  · rw [State.fail]
    split
    · exact fun _ => Furthest.ne_nil_record hs.ne_nil
    · exact hs.ne_nil

theorem ne_nil_fail (hs : s.Informed pool input) (hsilencers : s.silencers = 0)
    (e : Expectation) : (s.fail e).furthest.expected.toList ≠ [] := by
  rw [State.fail, if_pos hsilencers]
  exact Furthest.ne_nil_record hs.ne_nil

end State.Informed

/-! ## Actions that account for what they do not give -/

/-- The state after an action is informed and has a number of silencers.  If the action gave nothing
and nothing is silenced, something is expected. -/
structure Accounted (pool : OrderedSet Expectation) (input : List Char) (n : Nat)
    (result : Option V) (s : State τ) : Prop where
  informed : s.Informed pool input
  silencers : s.silencers = n
  ne_nil : result = none → n = 0 → s.furthest.expected.toList ≠ []

theorem Accounted.value {n : Nat} {value : V} {s : State τ} (hs : s.Informed pool input)
    (hsilencers : s.silencers = n) : Accounted pool input n (some value) s :=
  ⟨hs, hsilencers, fun h => absurd h (Option.some_ne_none value)⟩

/-- From an informed state the action ends so, with as many silencers as before. -/
def Accounts (pool : OrderedSet Expectation) (input : List Char) (x : ParseM τ (Option V)) : Prop :=
  ∀ s, s.Informed pool input → EndsIn s x (Accounted pool input s.silencers)

namespace Accounts

variable {x : ParseM τ (Option V)}

theorem outOfFuel : Accounts pool input (throw .outOfFuel : ParseM τ (Option V)) :=
  fun _ _ => .outOfFuel

theorem consume {e : Expectation} (he : e ∈ pool) :
    Accounts pool input (ParseT.consume e : ParseM τ _) := by
  intro s hs
  obtain ⟨before, rest, hinput, hlength, hrest⟩ := hs.rest?
  rw [EndsIn, ParseT.consume, runFrom_ofStep, State.consume?, hrest, Option.map_some]
  cases hmatched : e.matched? rest with
  | none =>
      exact .value (.fail hs.cache e)
        ⟨hs.fail he, s.silencers_fail e, fun _ h => hs.ne_nil_fail h e⟩
  | some t =>
      obtain ⟨after, rfl⟩ := Expectation.exists_append_of_matched? hmatched
      have hboundary : IsBoundary (s.pos + byteLength t) input :=
        ⟨before ++ t, after, by rw [hinput, List.append_assoc], by rw [byteLength_append, hlength]⟩
      exact .value ⟨rfl, rfl, hs.cache.isBoundary, hs.cache.position⟩
        (.value (hs.goTo hboundary) rfl)

/-- A named expression hides the failures inside and raises one of its own. -/
theorem named {description : String} (hdescription : .other description ∈ pool)
    (hx : Accounts pool input x) : Accounts pool input (ParseT.named description x) := by
  intro s hs
  have hbody : EndsIn s (ParseT.silenced x) fun _ s' =>
      s'.Informed pool input ∧ s'.silencers = s.silencers := by
    refine EndsIn.silenced ((hx s.silence hs.silence).mono fun _ s' _ h => ?_)
    exact ⟨h.informed.unsilence, congrArg (· - 1) h.silencers⟩
  refine hbody.bind fun result s₁ hs₁ ⟨hinformed, hsilencers⟩ => ?_
  cases result with
  | some value => exact .pure hs₁.cache (.value hinformed hsilencers)
  | none =>
      refine EndsIn.of_run rfl (.fail hs₁.cache (.other description)) ?_
      refine ⟨hinformed.fail hdescription, ?_, fun _ h => hinformed.ne_nil_fail ?_ _⟩
      · rw [State.silencers_fail, hsilencers]
      · rw [hsilencers, h]

/-- Reports leave alone what is known of failures. -/
theorem report [Tracer τ V] {s : State τ} (hs : s.Informed pool input) {start stop : Nat}
    (hstart : IsBoundary start input) (hstop : IsBoundary stop input)
    (event : Location → Event V) :
    EndsIn s (ParseT.report start stop event) fun _ s' => s'.Informed pool input ∧
      s'.furthest = s.furthest ∧ s'.silencers = s.silencers := by
  have hreport := EndsIn.reportAside hs.cache (hs.input ▸ hstart) (hs.input ▸ hstop) event
  refine hreport.mono fun _ s' hs' haside => ⟨hs.aside hs' haside, ?_⟩
  obtain ⟨cache, tracer, log, rfl⟩ := haside
  exact ⟨rfl, rfl⟩

theorem rule [Tracer τ V] (name : String) (hx : Accounts pool input x) :
    Accounts pool input (ParseT.rule name x) := by
  intro s hs
  refine (EndsIn.pos hs.cache).bind ?_
  rintro _ _ - ⟨rfl, rfl⟩
  refine (report hs hs.pos hs.pos _).bind fun _ s₁ _ ⟨h₁, _, hsilencers₁⟩ => ?_
  refine (hx s₁ h₁).bind fun result s₂ hs₂ h₂ => ?_
  rw [← hsilencers₁]
  cases result with
  | none =>
      have hback := h₂.informed.goTo hs.pos
      have hseek : EndsIn s₂ (ParseT.seek s.pos) fun _ s' => { s₂ with pos := s.pos } = s' :=
        .of_run (runFrom_seek s.pos s₂) ⟨rfl, rfl, hback.cache⟩ rfl
      refine hseek.bind ?_
      rintro _ _ - rfl
      refine (report hback hs.pos hs.pos _).bind fun _ s₄ hs₄ ⟨h₄, hfurthest, hsilencers⟩ => ?_
      refine .pure hs₄.cache ⟨h₄, hsilencers.trans h₂.silencers, ?_⟩
      rw [hfurthest]
      exact h₂.ne_nil
  | some value =>
      refine (EndsIn.pos hs₂.cache).bind ?_
      rintro _ _ - ⟨rfl, rfl⟩
      refine (report h₂.informed hs.pos h₂.informed.pos _).bind fun _ s₃ hs₃ h₃ => ?_
      exact .pure hs₃.cache (.value h₃.1 (h₃.2.2.trans h₂.silencers))

end Accounts

/-! ## Evaluation -/

namespace Accounts

variable {call : String → ParseM τ (Option Tree)} {es : List Expression}

theorem leaf {e : Expectation} (he : e ∈ pool) :
    Accounts pool input
      (do return (← ParseT.consume e).map Tree.leaf : ParseM τ (Option Tree)) := by
  intro s hs
  refine (consume he s hs).bind fun result s₁ hs₁ h₁ => .pure hs₁.cache ?_
  exact ⟨h₁.informed, h₁.silencers, fun hnone => h₁.ne_nil (Option.map_eq_none_iff.1 hnone)⟩

theorem evalAll (h : ∀ e ∈ es, Accounts pool input (e.eval call)) :
    Accounts pool input (Expression.evalAll call es) := by
  induction es with
  | nil =>
      intro s hs
      rw [Expression.evalAll]
      exact .pure hs.cache (.value hs rfl)
  | cons e es ih =>
      intro s hs
      rw [Expression.evalAll]
      refine (h e (.head _) s hs).bind fun result s₁ hs₁ h₁ => ?_
      cases result with
      | none => exact .pure hs₁.cache ⟨h₁.informed, h₁.silencers, fun _ => h₁.ne_nil rfl⟩
      | some value =>
          have hrest := ih (fun e he => h e (.tail _ he)) s₁ h₁.informed
          refine hrest.bind fun results s₂ hs₂ h₂ => .pure hs₂.cache ?_
          rw [h₁.silencers] at h₂
          exact ⟨h₂.informed, h₂.silencers, fun hnone => h₂.ne_nil (Option.map_eq_none_iff.1 hnone)⟩

/-- A choice gives nothing when its last item does.  The condition is for the end of the list, where
an item before has left something that is expected. -/
theorem evalFirst (h : ∀ e ∈ es, Accounts pool input (e.eval call)) (s : State τ)
    (hs : s.Informed pool input)
    (hlast : es = [] → s.silencers = 0 → s.furthest.expected.toList ≠ []) :
    EndsIn s (Expression.evalFirst call es) (Accounted pool input s.silencers) := by
  induction es generalizing s with
  | nil =>
      rw [Expression.evalFirst]
      exact .pure hs.cache ⟨hs, rfl, fun _ => hlast rfl⟩
  | cons e es ih =>
      rw [Expression.evalFirst]
      refine (h e (.head _) s hs).bind fun result s₁ hs₁ h₁ => ?_
      cases result with
      | some value => exact .pure hs₁.cache h₁
      | none =>
          have hrest := ih (fun e he => h e (.tail _ he)) s₁ h₁.informed
          rw [h₁.silencers] at hrest
          exact hrest fun _ => h₁.ne_nil rfl

theorem sequence {x : ParseM τ (Option (List Tree))} (hx : Accounts pool input x) :
    Accounts pool input (Expression.sequence x) := by
  intro s hs
  refine (EndsIn.pos hs.cache).bind ?_
  rintro _ _ - ⟨rfl, rfl⟩
  refine (hx s hs).bind fun result s₁ hs₁ h₁ => ?_
  cases result with
  | some values => exact .pure hs₁.cache (.value h₁.informed h₁.silencers)
  | none =>
      have hback := h₁.informed.goTo hs.pos
      exact EndsIn.of_run rfl ⟨rfl, rfl, hback.cache⟩ ⟨hback, h₁.silencers, fun _ => h₁.ne_nil rfl⟩

/-- An evaluation accounts for what it does not give if the rule invocations in it do, its failures
are in the pool, and no choice in it is without items. -/
theorem eval {e : Expression} (hcall : ∀ name, e.RefersTo name → Accounts pool input (call name))
    (hpool : ∀ x ∈ e.expectations, x ∈ pool) (hchoices : .choice [] ∉ e.nodes) :
    Accounts pool input (e.eval call) := by
  induction e using Expression.induct with
  | literal value ignoreCase =>
      rw [Expression.eval]
      exact leaf (hpool _ (.head _))
  | charClass k =>
      rw [Expression.eval]
      exact leaf (hpool _ (.head _))
  | any =>
      rw [Expression.eval]
      exact leaf (hpool _ (.head _))
  | ref name location =>
      rw [Expression.eval]
      exact hcall name .ref
  | seq items ih =>
      rw [Expression.eval_seq]
      rw [Expression.expectations_seq] at hpool
      refine sequence (evalAll fun e he => ih e he (fun name h => hcall name (.seq he h)) ?_ ?_)
      · exact fun x hx => hpool x (List.mem_flatMap.2 ⟨e, he, hx⟩)
      · exact fun h => hchoices (.tail _ (Expression.mem_nodesAll.2 ⟨e, he, h⟩))
  | choice items ih =>
      rw [Expression.eval]
      rw [Expression.expectations_choice] at hpool
      refine fun s hs => evalFirst (fun e he => ih e he (fun name h => hcall name (.choice he h))
        ?_ ?_) s hs ?_
      · exact fun x hx => hpool x (List.mem_flatMap.2 ⟨e, he, hx⟩)
      · exact fun h => hchoices (.tail _ (Expression.mem_nodesAll.2 ⟨e, he, h⟩))
      · rintro rfl
        exact absurd (.head _) hchoices
  | named name body ih =>
      rw [Expression.eval]
      rw [Expression.expectations_named] at hpool
      refine (ih (fun name h => hcall name (.named h)) (fun x hx => hpool x (.tail _ hx)) ?_).named
        (hpool _ (.head _))
      exact fun h => hchoices (.tail _ h)

end Accounts

namespace Grammar

variable [Tracer τ Tree] {g : Grammar}

/-- Invoking a rule that is there accounts for what it does not give. -/
theorem accounts_evalRule (hrefs : ∀ name, g.RefersTo name → name ∈ g.ruleNames)
    (hchoices : .choice [] ∉ g.nodes) (fuel : Nat) {name : String} (hname : name ∈ g.ruleNames) :
    Accounts g.collectPool input (g.evalRule fuel name : ParseM τ _) := by
  induction fuel generalizing name with
  | zero => exact .outOfFuel
  | succ fuel ih =>
      rw [evalRule]
      cases hr : g.rule? name with
      | none =>
          obtain ⟨r, hmem, rfl⟩ := mem_ruleNames.1 hname
          exact absurd (decide_eq_true rfl) (List.find?_eq_none.1 hr r hmem)
      | some r =>
          obtain ⟨hmem, -⟩ := rule?_eq_some hr
          refine .rule name (.eval (fun name h => ih (hrefs name ⟨r, hmem, h⟩)) ?_ ?_)
          · exact fun x hx => mem_collectPool.2 (.inl ⟨r, hmem, hx⟩)
          · exact fun h => hchoices (List.mem_flatMap.2 ⟨r, hmem, h⟩)

end Grammar

/-! ## Whole parses -/

/-- The error at a boundary is about the character that stands there. -/
theorem Furthest.error_covers {f : Furthest} {before rest : List Char}
    (hinput : input = before ++ rest) (hlength : byteLength before = f.pos) :
    (f.error input).found = rest.head?.map String.singleton ∧
      (f.error input).location = ⟨.after before, .after (before ++ rest.head?.toList)⟩ := by
  have hstart : Position.ofOffset input f.pos = .after before := by
    rw [hinput, ← hlength, Position.ofOffset_append]
  have hstop : Position.ofOffset input (f.pos + byteLength rest.head?.toList) =
      .after (before ++ rest.head?.toList) := by
    have hsplit : input = (before ++ rest.head?.toList) ++ rest.tail := by
      cases rest with
      | nil => simpa using hinput
      | cons c rest => simpa using hinput
    rw [← hlength, ← byteLength_append, hsplit, Position.ofOffset_append]
  rw [error_of_split hinput hlength, hstart, hstop]
  exact ⟨rfl, rfl⟩

/-- A parse that fails has the error of a state that knows what was expected. -/
theorem Accounted.finished {result : Option V} {s : State τ} (h : Accounted pool input 0 result s)
    (hend : .endOfInput ∈ pool) {e : SyntaxError} (he : s.outcome result = .error e) :
    (s.finished result).Informed pool input ∧
      (s.finished result).furthest.expected.toList ≠ [] ∧
      (s.finished result).furthest.error input = e := by
  obtain rfl := h.informed.input
  cases result with
  | none =>
      rw [State.outcome] at he
      exact ⟨h.informed, h.ne_nil rfl rfl, Except.error.inj he⟩
  | some value =>
      rw [State.outcome] at he
      rw [State.finished]
      split at he
      next => cases he
      next hshort =>
        rw [if_neg hshort]
        exact ⟨h.informed.fail hend, h.informed.ne_nil_fail h.silencers _, Except.error.inj he⟩

namespace Grammar

variable [Tracer τ Tree]

/-- If a parse from a rule that is there ends in a syntax error, the error says what was expected,
and all of it is in the pool.  It has the character at the furthest failure for what was found,
which is nothing just at the end of the input, and its location covers this character. -/
theorem syntaxError_informative (g : Grammar)
    (hrefs : ∀ name, g.RefersTo name → name ∈ g.ruleNames) (hchoices : .choice [] ∉ g.nodes)
    {start : String} (hstart : start ∈ g.ruleNames) (fuel : Nat) (input : String)
    (tracer : Option τ) {e : SyntaxError} {s' : State τ}
    (h : runFrom (State.init input tracer) (g.parseRule fuel start) = (.ok (.error e), s')) :
    e.expected ≠ [] ∧ (∀ x ∈ e.expected, x ∈ g.collectPool) ∧
    ∃ before rest, input.toList = before ++ rest ∧ byteLength before = s'.furthest.pos ∧
      e.found = rest.head?.map String.singleton ∧
      (e.found = none ↔ s'.furthest.pos = byteLength input.toList) ∧
      e.location = ⟨.after before, .after (before ++ rest.head?.toList)⟩ ∧
      (e.found = none → e.location.start = e.location.stop) := by
  have hrule := accounts_evalRule hrefs hchoices fuel hstart _ (.init input tracer)
  rw [EndsIn] at hrule
  rw [parseRule, runFrom_bind] at h
  generalize runFrom (State.init input tracer) (g.evalRule fuel start) = r at hrule h
  cases hrule with
  | refused => cases h
  | outOfFuel => cases h
  | @value s₁ result hfollows hresult =>
      obtain ⟨cache, log, hfinish, -⟩ := hresult.informed.finish?_eq result
      rw [andThen, finish, runFrom_ofStep, hfinish] at h
      obtain ⟨houtcome, rfl⟩ := Prod.mk.inj h
      obtain ⟨hinformed, hne, rfl⟩ :=
        hresult.finished (mem_collectPool.2 (.inr rfl)) (Except.ok.inj houtcome)
      refine ⟨hne, hinformed.mem_pool, ?_⟩
      obtain ⟨before, rest, hinput, hlength⟩ := hinformed.furthest
      obtain ⟨hfound, hlocation⟩ := Furthest.error_covers hinput hlength
      refine ⟨before, rest, hinput, hlength, hfound, ?_, hlocation, ?_⟩
      · rw [hfound, Option.map_eq_none_iff, List.head?_eq_none_iff, ← hlength, hinput,
          byteLength_append, Nat.left_eq_add, byteLength_eq_zero_iff]
      · intro hnone
        rw [hfound, Option.map_eq_none_iff] at hnone
        rw [hlocation, hnone, Option.toList_none, List.append_nil]

/-- Its first item fails further on than where the second one leaves the rest of an input. -/
def settling : Grammar where
  rules :=
    [⟨"s", .choice [.seq [.ref "t" default, .any], .literal "é" false], default⟩,
      ⟨"t", .seq [.literal "é" false, .any, .ref "digit" default], default⟩,
      ⟨"digit", .named "digit" (.charClass ⟨[.range '0' '9'], false, false⟩), default⟩]

theorem syntaxError_informative_settling :
    ∃ e s', runFrom (State.init "éx😀" (some ({} : Recorder Tree))) (settling.parseRule 4 "s") =
        (.ok (.error e), s') ∧ s'.furthest.pos = 3 ∧
      e.expected ≠ [] ∧ (∀ x ∈ e.expected, x ∈ settling.collectPool) ∧
      e.location = ⟨.after ['é', 'x'], .after ['é', 'x', '😀']⟩ := by
  have hrefs := undefinedRefs_eq_nil_iff.1 (show settling.undefinedRefs = [] by decide)
  have hchoices : .choice [] ∉ settling.nodes := by
    simp [settling, nodes, Expression.nodes, Expression.nodesAll]
  have herror : (runFrom (State.init "éx😀" (some ({} : Recorder Tree)))
      (settling.parseRule 4 "s")).1.toOption.map (·.toOption.isNone) = some true := by
    decide +kernel
  have hpos : (runFrom (State.init "éx😀" (some ({} : Recorder Tree)))
      (settling.parseRule 4 "s")).2.furthest.pos = 3 := by decide +kernel
  rcases hrun : runFrom (State.init "éx😀" (some ({} : Recorder Tree)))
    (settling.parseRule 4 "s") with ⟨halt | e | value, s'⟩
  · rw [hrun] at herror
    cases herror
  · rw [hrun] at hpos
    obtain ⟨hne, hpool, before, rest, hinput, hlength, -, -, hlocation, -⟩ :=
      syntaxError_informative settling hrefs hchoices (by decide) 4 _ _ hrun
    have hsplit : ['é', 'x'] ++ ['😀'] = before ++ rest := by
      rw [← hinput]
      decide
    obtain ⟨rfl, rfl⟩ := append_inj_of_byteLength hsplit (by rw [hlength, hpos]; decide)
    exact ⟨e, s', rfl, hpos, hne, hpool, hlocation⟩
  · rw [hrun] at herror
    cases herror

end Grammar

end PegGen
