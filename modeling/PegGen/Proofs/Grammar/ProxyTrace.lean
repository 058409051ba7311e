import PegGen.Proofs.Grammar.Observers
import PegGen.Proofs.Grammar.Redirection
import PegGen.Proofs.Grammar.Yield
import PegGen.Proofs.Trace.Invocation

/-!
# What removing proxies does to a trace

A parse with a recorder, and a parse of the same input after the proxies were removed.  The events
of the second are those of the first without the events of proxies, except for the outermost
invocation, whose events stay (`Grammar.records_withoutProxies_iff`).

The two parses are run beside each other.  The second does what the first does, and keeps of its
events those that are not of a hidden rule (`Erases`).  This is kept by everything that evaluation
is made of.  An invocation of a hidden rule on the left has nothing beside it on the right: the
rule is a reference, and the right side has gone to its target already (`Erases.skip`).

Which references are led where is a matter of `Bypass`.  With nothing hidden and nothing led
elsewhere it says that more fuel does not change a trace.
-/

namespace PegGen

open Text ParseT

variable {α β : Type} {input : List Char}

/-! ## Recorded invocations -/

section Recorded

variable {s s' : State (Recorder Tree)} {kept kept' : List (Event Tree)} {start stop : Nat}

theorem Beside.symm (h : Beside input s s') : Beside input s' s :=
  ⟨h.right, h.left, h.pos.symm, h.furthest.symm, h.silencers.symm⟩

theorem Beside.trans {s'' : State (Recorder Tree)} (h : Beside input s s')
    (h' : Beside input s' s'') : Beside input s s'' :=
  ⟨h.left, h'.right, h'.pos.trans h.pos, h'.furthest.trans h.furthest,
    h'.silencers.trans h.silencers⟩

/-- A recorder keeps an event. -/
theorem exists_runFrom_report (hs : s.OnBoundaries input) (htold : s.tracer = some ⟨kept⟩)
    (hstart : IsBoundary start input) (hstop : IsBoundary stop input)
    (event : Location → Event Tree) :
    ∃ s₁, runFrom s (report start stop event : ParseM _ Unit) = (.ok (), s₁) ∧
      s₁.tracer = some ⟨kept ++ [event ⟨.ofOffset input start, .ofOffset input stop⟩]⟩ ∧
      Beside input s s₁ := by
  have hcounted := hs.counted hstop
  obtain rfl := hs.input
  exact ⟨_, runFrom_report_of_tracer hs.cache htold hstart hstop event, rfl, hs, hcounted _ _, rfl,
    rfl, rfl⟩

/-- The event that closes an invocation. -/
def Event.closing (input : List Char) (name : String) (start stop : Nat) :
    Option Tree → Event Tree
  | some value => .matched name ⟨.ofOffset input start, .ofOffset input stop⟩ value
  | none => .failed name (.point (.ofOffset input start))

theorem Event.rule_closing (input : List Char) (name : String) (start stop : Nat)
    (result : Option Tree) : (closing input name start stop result).rule = name := by
  cases result <;> rfl

theorem Event.kind_closing (input : List Char) (name : String) (start stop : Nat)
    (result : Option Tree) : (closing input name start stop result).kind ≠ .enter := by
  cases result <;> simp [closing, kind]

/-- The state in which an invocation is closed: at its start, if there is no value. -/
def State.closed (start : Nat) (s : State (Recorder Tree)) : Option Tree → State (Recorder Tree)
  | some _ => s
  | none => s.at start

theorem Beside.closed (h : Beside input s s') (hstart : IsBoundary start input)
    (result : Option Tree) : Beside input (s.closed start result) (s'.closed start result) := by
  cases result with
  | none => exact h.goTo hstart
  | some value => exact h

/-- The end of an invocation is recorded. -/
theorem exists_runFrom_closing (hs : s.OnBoundaries input) (htold : s.tracer = some ⟨kept⟩)
    (hstart : IsBoundary start input) (name : String) (result : Option Tree) :
    ∃ s₁, runFrom s (closing name start result : ParseM _ _) = (.ok result, s₁) ∧
      s₁.tracer = some ⟨kept ++ [.closing input name start s.pos result]⟩ ∧
      Beside input (s.closed start result) s₁ := by
  cases result with
  | none =>
      obtain ⟨s₁, hreport, htold₁, hs₁⟩ :=
        exists_runFrom_report (hs.goTo hstart) htold hstart hstart (.failed name)
      refine ⟨s₁, ?_, htold₁, hs₁⟩
      rw [closing_none, runFrom_bind, runFrom_seek, andThen, runFrom_bind, hreport]
      rfl
  | some value =>
      obtain ⟨s₁, hreport, htold₁, hs₁⟩ :=
        exists_runFrom_report hs htold hstart hs.pos (.matched name · value)
      refine ⟨s₁, ?_, htold₁, hs₁⟩
      rw [closing_some, runFrom_bind, runFrom_pos, andThen, runFrom_bind, hreport]
      rfl

/-- An invocation is entered, its body is run, and it is closed. -/
theorem exists_runFrom_rule (hs : s.OnBoundaries input) (htold : s.tracer = some ⟨kept⟩)
    (name : String) (x : ParseM (Recorder Tree) (Option Tree)) :
    ∃ s₀, s₀.tracer = some ⟨kept ++ [.enter name (.point (.ofOffset input s.pos))]⟩ ∧
      Beside input s s₀ ∧
      runFrom s (rule name x) = andThen (closing name s.pos) (runFrom s₀ x) := by
  obtain ⟨s₀, hreport, htold₀, hs₀⟩ :=
    exists_runFrom_report hs htold hs.pos hs.pos (.enter name)
  refine ⟨s₀, htold₀, hs₀, ?_⟩
  rw [rule_eq, runFrom_bind, runFrom_pos, andThen, runFrom_bind, hreport, andThen, runFrom_bind]

end Recorded

theorem andThen_eq_ok {τ : Type} {f : α → ParseM τ β} {r : Except Halt α × State τ} {b : β}
    {s₂ : State τ} (h : andThen f r = (.ok b, s₂)) :
    ∃ a s₁, r = (.ok a, s₁) ∧ runFrom s₁ (f a) = (.ok b, s₂) := by
  obtain ⟨halt | a, s₁⟩ := r
  · cases h
  · exact ⟨a, s₁, rfl, h⟩

theorem Quiet.exists_run {x y : ParseM (Recorder Tree) α} (hxy : Quiet input x y)
    {s s' s₁ : State (Recorder Tree)} {a : α} (h : Beside input s s')
    (hrun : runFrom s x = (.ok a, s₁)) :
    ∃ s₁', runFrom s' y = (.ok a, s₁') ∧ s₁.tracer = s.tracer ∧ s₁'.tracer = s'.tracer ∧
      Beside input s₁ s₁' := by
  obtain ⟨a', s₂, s₂', hx, hy, htracer, htracer', h₂⟩ := hxy s s' h
  rw [hx] at hrun
  cases hrun
  exact ⟨s₂', hy, htracer, htracer', h₂⟩

/-! ## Erasing events -/

/-- The events that are not of hidden rules. -/
def shown (hidden : String → Bool) (events : List (Event Tree)) : List (Event Tree) :=
  events.filter fun event => !hidden event.rule

@[simp] theorem shown_nil (hidden : String → Bool) : shown hidden [] = [] := rfl

@[simp] theorem shown_append (hidden : String → Bool) (E F : List (Event Tree)) :
    shown hidden (E ++ F) = shown hidden E ++ shown hidden F :=
  List.filter_append E F

theorem shown_cons_of_hidden {hidden : String → Bool} {event : Event Tree}
    (h : hidden event.rule = true) (E : List (Event Tree)) :
    shown hidden (event :: E) = shown hidden E :=
  List.filter_cons_of_neg (by simp [h])

theorem shown_cons_of_not_hidden {hidden : String → Bool} {event : Event Tree}
    (h : hidden event.rule = false) (E : List (Event Tree)) :
    shown hidden (event :: E) = event :: shown hidden E :=
  List.filter_cons_of_pos (by simp [h])

theorem shown_of_none (E : List (Event Tree)) : shown (fun _ => false) E = E :=
  List.filter_eq_self.2 fun _ _ => rfl

/-- From states beside each other, the second action does what the first does when it ends with a
value, and what it tells its recorder is what the first does, without hidden rules. -/
def Erases (input : List Char) (hidden : String → Bool) (x y : ParseM (Recorder Tree) α) : Prop :=
  ∀ kept kept' s s' a s₁, s.tracer = some ⟨kept⟩ → s'.tracer = some ⟨kept'⟩ →
    Beside input s s' → runFrom s x = (.ok a, s₁) →
    ∃ E s₁', s₁.tracer = some ⟨kept ++ E⟩ ∧ runFrom s' y = (.ok a, s₁') ∧
      s₁'.tracer = some ⟨kept' ++ shown hidden E⟩ ∧ Beside input s₁ s₁'

namespace Erases

variable {hidden : String → Bool}

/-- An action that tells nothing. -/
theorem of_quiet {x y : ParseM (Recorder Tree) α} (hxy : Quiet input x y) :
    Erases input hidden x y := by
  intro kept kept' s s' a s₁ htold htold' h hrun
  obtain ⟨s₁', hrun', htracer, htracer', h₁⟩ := hxy.exists_run h hrun
  exact ⟨[], s₁', by rw [htracer, htold, List.append_nil], hrun',
    by rw [htracer', htold', shown_nil, List.append_nil], h₁⟩

protected theorem pure (a : α) : Erases input hidden (pure a) (pure a) :=
  of_quiet fun _ _ h => ⟨_, _, _, rfl, rfl, rfl, rfl, h⟩

/-- Nothing is asked of an action that runs out of fuel. -/
theorem outOfFuel (y : ParseM (Recorder Tree) α) :
    Erases input hidden (throw .outOfFuel) y := by
  intro kept kept' s s' a s₁ htold htold' h hrun
  cases hrun

theorem bind {x y : ParseM (Recorder Tree) α} {f g : α → ParseM (Recorder Tree) β}
    (hxy : Erases input hidden x y) (hfg : ∀ a, Erases input hidden (f a) (g a)) :
    Erases input hidden (x >>= f) (y >>= g) := by
  intro kept kept' s s' b s₂ htold htold' h hrun
  rw [runFrom_bind] at hrun
  obtain ⟨a, s₁, hx, hf⟩ := andThen_eq_ok hrun
  obtain ⟨E, s₁', htold₁, hy, htold₁', h₁⟩ := hxy _ _ _ _ _ _ htold htold' h hx
  obtain ⟨F, s₂', htold₂, hg, htold₂', h₂⟩ := hfg a _ _ _ _ _ _ htold₁ htold₁' h₁ hf
  refine ⟨E ++ F, s₂', by rw [htold₂, List.append_assoc], ?_, ?_, h₂⟩
  · rw [runFrom_bind, hy, andThen, hg]
  · rw [htold₂', shown_append, List.append_assoc]

theorem silenced {x y : ParseM (Recorder Tree) α} (hxy : Erases input hidden x y) :
    Erases input hidden (ParseT.silenced x) (ParseT.silenced y) := by
  intro kept kept' s s' a s₁ htold htold' h hrun
  have hrun : ((runFrom s.silence x).1, (runFrom s.silence x).2.unsilence) = (.ok a, s₁) := hrun
  cases hx : runFrom s.silence x with
  | mk r s₂ =>
      rw [hx] at hrun
      cases hrun
      obtain ⟨E, s₂', htold₂, hy, htold₂', h₂⟩ := hxy kept kept' s.silence s'.silence a s₂ htold
        htold' ⟨h.left.silence, h.right.silence, h.pos, h.furthest,
          congrArg (· + 1) h.silencers⟩ hx
      refine ⟨E, s₂'.unsilence, htold₂, ?_, htold₂', h₂.left.unsilence, h₂.right.unsilence, h₂.pos,
        h₂.furthest, congrArg (· - 1) h₂.silencers⟩
      show ((runFrom s'.silence y).1, (runFrom s'.silence y).2.unsilence) = _
      rw [hy]

theorem named (description : String) {x y : ParseM (Recorder Tree) (Option Tree)}
    (hxy : Erases input hidden x y) :
    Erases input hidden (ParseT.named description x) (ParseT.named description y) := by
  refine hxy.silenced.bind fun result => ?_
  cases result with
  | none => exact (of_quiet (.fail _)).bind fun _ => .pure _
  | some value => exact .pure _

theorem sequence {x y : ParseM (Recorder Tree) (Option (List Tree))}
    (hxy : Erases input hidden x y) :
    Erases input hidden (Expression.sequence x) (Expression.sequence y) := by
  intro kept kept' s s' a s₁ htold htold' h hrun
  rw [Expression.sequence, runFrom_bind, runFrom_pos, andThen] at hrun
  rw [Expression.sequence, runFrom_bind, runFrom_pos, andThen, h.pos]
  refine hxy.bind (fun result => ?_) _ _ _ _ _ _ htold htold' h hrun
  cases result with
  | none => exact (of_quiet (.seek h.left.pos)).bind fun _ => .pure _
  | some values => exact .pure _

theorem evalClosed : EvalClosed fun _ (x y : ParseM (Recorder Tree) _) =>
    Erases input hidden x y where
  pure := .pure
  bind := bind
  consume e := of_quiet (.consume e)
  sequence := sequence
  named description _ _ := named description

/-- Two invocations of a rule, hidden or not.  Both are entered first and closed last, and what is
hidden is hidden between the two. -/
theorem exists_rule (name : String) {x y : ParseM (Recorder Tree) (Option Tree)}
    (hxy : Erases input hidden x y) {kept kept' : List (Event Tree)}
    {s s' s₂ : State (Recorder Tree)} {result : Option Tree} (htold : s.tracer = some ⟨kept⟩)
    (htold' : s'.tracer = some ⟨kept'⟩) (h : Beside input s s')
    (hrun : runFrom s (ParseT.rule name x) = (.ok result, s₂)) :
    ∃ location inner last s₂', last.rule = name ∧ last.kind ≠ .enter ∧
      s₂.tracer = some ⟨kept ++ .enter name location :: (inner ++ [last])⟩ ∧
      runFrom s' (ParseT.rule name y) = (.ok result, s₂') ∧
      s₂'.tracer = some ⟨kept' ++ .enter name location :: (shown hidden inner ++ [last])⟩ ∧
      Beside input s₂ s₂' := by
  obtain ⟨s₀, htold₀, hs₀, hopen⟩ := exists_runFrom_rule h.left htold name x
  obtain ⟨s₀', htold₀', hs₀', hopen'⟩ := exists_runFrom_rule h.right htold' name y
  rw [hopen] at hrun
  obtain ⟨result', s₁, hx, hclose⟩ := andThen_eq_ok hrun
  rw [h.pos] at htold₀' hopen'
  obtain ⟨inner, s₁', htold₁, hy, htold₁', h₁⟩ :=
    hxy _ _ _ _ _ _ htold₀ htold₀' (hs₀.symm.trans (h.trans hs₀')) hx
  have hstart : IsBoundary s.pos input := h.left.pos
  obtain ⟨_, hclosed, htold₂, hs₂⟩ := exists_runFrom_closing h₁.left htold₁ hstart name result'
  obtain ⟨s₂', hclosed', htold₂', hs₂'⟩ :=
    exists_runFrom_closing h₁.right htold₁' hstart name result'
  rw [hclosed] at hclose
  cases hclose
  rw [h₁.pos] at htold₂'
  refine ⟨.point (.ofOffset input s.pos), inner, .closing input name s.pos s₁.pos result, s₂',
    Event.rule_closing .., Event.kind_closing _ _ _ _ _, ?_, ?_, ?_,
    hs₂.symm.trans ((h₁.closed hstart result).trans hs₂')⟩
  · rw [htold₂]
    simp
  · rw [hopen', hy, andThen, hclosed']
  · rw [htold₂']
    simp

/-- An invocation of a rule that is not hidden is beside one. -/
theorem rule {name : String} (hname : hidden name = false)
    {x y : ParseM (Recorder Tree) (Option Tree)} (hxy : Erases input hidden x y) :
    Erases input hidden (ParseT.rule name x) (ParseT.rule name y) := by
  intro kept kept' s s' result s₂ htold htold' h hrun
  obtain ⟨location, inner, last, s₂', hlast, -, htold₂, hrun', htold₂', h₂⟩ :=
    hxy.exists_rule name htold htold' h hrun
  refine ⟨_, s₂', htold₂, hrun', ?_, h₂⟩
  rw [htold₂', shown_cons_of_not_hidden hname, shown_append,
    shown_cons_of_not_hidden (by rw [hlast, hname]), shown_nil]

/-- An invocation of a hidden rule is beside its body, if the body goes back by itself when it gives
nothing, so that the invocation has nothing to go back from. -/
theorem skip {name : String} (hname : hidden name = true)
    {x y : ParseM (Recorder Tree) (Option Tree)} (hxy : Erases input hidden x y)
    (hback : ∀ s s₁, s.OnBoundaries input → runFrom s x = (.ok none, s₁) → s₁.pos = s.pos) :
    Erases input hidden (ParseT.rule name x) y := by
  intro kept kept' s s' result s₂ htold htold' h hrun
  obtain ⟨s₀, htold₀, hs₀, hopen⟩ := exists_runFrom_rule h.left htold name x
  rw [hopen] at hrun
  obtain ⟨result', s₁, hx, hclose⟩ := andThen_eq_ok hrun
  obtain ⟨inner, s₁', htold₁, hy, htold₁', h₁⟩ :=
    hxy _ _ _ _ _ _ htold₀ htold' (hs₀.symm.trans h) hx
  obtain ⟨_, hclosed, htold₂, hs₂⟩ := exists_runFrom_closing h₁.left htold₁ h.left.pos name result'
  rw [hclosed] at hclose
  cases hclose
  have hstays : s₁.closed s.pos result = s₁ := by
    cases result with
    | some value => rfl
    | none =>
        have hpos := (hback s₀ s₁ hs₀.right hx).trans hs₀.pos
        rw [State.closed, State.at, ← hpos]
  rw [hstays] at hs₂
  refine ⟨.enter name (.point (.ofOffset input s.pos)) ::
    (inner ++ [.closing input name s.pos s₁.pos result]), s₁', ?_, hy, ?_, hs₂.symm.trans h₁⟩
  · rw [htold₂]
    simp
  · rw [htold₁', shown_cons_of_hidden hname, shown_append,
      shown_cons_of_hidden (by rw [Event.rule_closing, hname]), shown_nil, List.append_nil]

end Erases

/-! ## Bypassing rules -/

namespace Grammar

variable {g g' : Grammar} {lead : String → String} {hidden : String → Bool}

/-- A grammar and another in which whoever refers to a hidden rule is led past it.  A hidden rule
is a reference, and led to where its target is.  The others stay. -/
structure Bypass (g g' : Grammar) (lead : String → String) (hidden : String → Bool) : Prop where
  missing : ∀ {name}, g.rule? name = none → g'.rule? (lead name) = none
  stays : ∀ {name r}, g.rule? name = some r → hidden name = false →
    lead name = name ∧ g'.rule? name = some (r.renameRefs lead)
  skips : ∀ {name r}, g.rule? name = some r → hidden name = true →
    ∃ target location, r.expression = .ref target location ∧ lead target = lead name

/-- An invocation that gives nothing has not moved. -/
theorem pos_of_evalRule_none {fuel : Nat} {name : String} {s s₁ : State (Recorder Tree)}
    (hs : s.OnBoundaries input) (hrun : runFrom s (g.evalRule fuel name) = (.ok none, s₁)) :
    s₁.pos = s.pos := by
  have hspells := g.spells_evalRule fuel name s hs.cache (by rw [hs.input]; exact hs.pos)
  rw [EndsIn, hrun] at hspells
  cases hspells with
  | value _ hconsumed => exact hconsumed

namespace Bypass

/-- Bodies of rules, as soon as it holds of the rules that they invoke. -/
theorem erases_body {fuel fuel' : Nat}
    (h : ∀ name, Erases input hidden (g.evalRule fuel name) (g'.evalRule fuel' (lead name)))
    (r : Rule) :
    Erases input hidden (r.expression.eval (g.evalRule fuel))
      ((r.renameRefs lead).expression.eval (g'.evalRule fuel')) := by
  show Erases input hidden _ ((r.expression.renameRefs lead).eval _)
  rw [Expression.eval_renameRefs]
  exact Erases.evalClosed.eval h r.expression

/-- The other grammar does what the first does, with no more fuel, and hides the hidden rules. -/
theorem erases (h : Bypass g g' lead hidden) (input : List Char) {fuel fuel' : Nat}
    (hfuel : fuel ≤ fuel') (name : String) :
    Erases input hidden (g.evalRule fuel name) (g'.evalRule fuel' (lead name)) := by
  induction fuel generalizing fuel' name with
  | zero => exact .outOfFuel _
  | succ fuel ih =>
      cases hr : g.rule? name with
      | none =>
          obtain ⟨fuel', rfl⟩ := Nat.exists_eq_add_one.2 (Nat.zero_lt_of_lt hfuel)
          rw [evalRule, hr, evalRule, h.missing hr]
          exact .pure _
      | some r =>
          cases hname : hidden name with
          | false =>
              obtain ⟨fuel', rfl⟩ := Nat.exists_eq_add_one.2 (Nat.zero_lt_of_lt hfuel)
              obtain ⟨hlead, hr'⟩ := h.stays hr hname
              rw [evalRule, hr, hlead, evalRule, hr']
              exact (erases_body (ih (Nat.le_of_succ_le_succ hfuel)) r).rule hname
          | true =>
              obtain ⟨target, location, hexpression, hlead⟩ := h.skips hr hname
              rw [evalRule_proxy hr hexpression, ← hlead]
              exact (ih (Nat.le_of_succ_le hfuel) target).skip hname
                fun s s₁ hs => pos_of_evalRule_none hs

theorem refl (g : Grammar) : Bypass g g id fun _ => false where
  missing h := h
  stays {_ r} h _ := ⟨rfl, by rw [h, r.renameRefs_eq_self (f := id) fun _ _ => rfl]⟩
  skips _ h := nomatch h

end Bypass

/-- The name is that of a proxy. -/
def isProxy (g : Grammar) (name : String) : Bool :=
  ((g.rule? name).bind Rule.proxyTarget?).isSome

theorem isProxy_of_rule? {name : String} {r : Rule} (hr : g.rule? name = some r) :
    g.isProxy name = r.proxyTarget?.isSome := by
  rw [isProxy, hr, Option.bind_some]

/-- Removing the proxies leads past them. -/
theorem Led.bypass {startRules visited : List String} (h : g.Led startRules lead visited)
    (hnames : g.ruleNames.Nodup) :
    Bypass g (g.withoutProxies startRules) lead g.isProxy where
  missing {name} hr := by
    have hvisited : name ∉ visited := by
      intro hvisited
      obtain ⟨i, r, _, -, hget, rfl, -⟩ := h.follows name hvisited
      rw [rule?_name hnames (List.mem_of_getElem? hget)] at hr
      cases hr
    rw [h.stays name hvisited, h.rule?_withoutProxies (.inl hvisited), hr, Option.map_none]
  stays {name r} hr hproxy := by
    obtain ⟨hmem, rfl⟩ := rule?_eq_some hr
    have hvisited : r.name ∉ visited := by
      intro hvisited
      obtain ⟨target, htarget, -⟩ := h.exists_of_mem_visited hnames hmem hvisited
      rw [isProxy_of_rule? hr, htarget] at hproxy
      cases hproxy
    refine ⟨h.stays r.name hvisited, ?_⟩
    rw [h.rule?_withoutProxies (.inl hvisited), hr, Option.map_some]
  skips {name r} hr hproxy := by
    obtain ⟨hmem, rfl⟩ := rule?_eq_some hr
    rw [isProxy_of_rule? hr] at hproxy
    obtain ⟨target, htarget⟩ := Option.isSome_iff_exists.1 hproxy
    obtain ⟨location, hexpression, -⟩ := Rule.proxyTarget?_eq_some_iff.1 htarget
    exact ⟨target, location, hexpression, (h.lead_eq_of_proxyTarget? hnames hmem htarget).symm⟩

/-! ## Recorded parses -/

variable {start input : String} {E E' : List (Event Tree)}

/-- A parse with a recorder ends with a result, and these are the events that are recorded. -/
def Records (g : Grammar) (start input : String) (result : Except Halt (Except SyntaxError Tree))
    (events : List (Event Tree)) : Prop :=
  result ≠ .error .outOfFuel ∧
    ∃ fuel s, g.parseRun fuel start input (some ({} : Recorder Tree)) = (result, s) ∧
      s.tracer = some ⟨events⟩

theorem Records.of_run {fuel : Nat} {outcome : Except SyntaxError Tree}
    {s : State (Recorder Tree)} (hrun : g.parseRun fuel start input (some {}) = (.ok outcome, s))
    (htold : s.tracer = some ⟨E⟩) : g.Records start input (.ok outcome) E :=
  ⟨by simp, fuel, s, hrun, htold⟩

/-- What is left of the events of a parse when those of proxies are deleted.  The outermost
invocation is entered first and closed last, and stays.  A start rule that does not exist is not
invoked. -/
inductive ProxiesErased (g : Grammar) (start : String) :
    List (Event Tree) → List (Event Tree) → Prop where
  | missing : g.rule? start = none → ProxiesErased g start [] []
  | invoked (location : Location) (inner : List (Event Tree)) : last.rule = start →
      last.kind ≠ .enter → ProxiesErased g start (.enter start location :: (inner ++ [last]))
        (.enter start location :: (shown g.isProxy inner ++ [last]))

theorem ProxiesErased.unique {E'' : List (Event Tree)} (h : g.ProxiesErased start E E')
    (h' : g.ProxiesErased start E E'') : E' = E'' := by
  cases h with
  | missing => cases h' with
    | missing => rfl
  | invoked location inner hlast hkind =>
      generalize hE : Event.enter start location :: (inner ++ [_]) = E at h'
      cases h' with
      | missing => cases hE
      | invoked location' inner' hlast' hkind' =>
          obtain ⟨hfirst, hrest⟩ := List.cons.inj hE
          obtain ⟨rfl, hlast⟩ := List.append_inj' hrest rfl
          cases hfirst
          cases hlast
          rfl

/-- A parse with a recorder that ends does so with an outcome. -/
theorem Records.exists_ok {result : Except Halt (Except SyntaxError Tree)}
    (h : g.Records start input result E) : ∃ outcome, result = .ok outcome := by
  obtain ⟨hends, fuel, s, hrun, -⟩ := h
  have hheeds := g.heeds_parseRun fuel start input (none : Option (Recorder Tree))
  rw [hrun] at hheeds
  generalize g.parseRun fuel start input (none : Option (Recorder Tree)) = ry at hheeds
  cases hheeds with
  | value => exact ⟨_, rfl⟩
  | refused => exact ⟨_, rfl⟩
  | outOfFuel => exact absurd rfl hends
  | refusedOutOfFuel => exact absurd rfl hends

theorem beside_init (input : String) : Beside input.toList (State.init input (some {}))
    (State.init input (some ({} : Recorder Tree))) :=
  ⟨.init input _, .init input _, rfl, rfl, rfl⟩

/-- More fuel changes nothing for a recorded parse that ends. -/
theorem exists_parseRun_of_le {fuel fuel' : Nat} (hfuel : fuel ≤ fuel')
    {outcome : Except SyntaxError Tree} {s : State (Recorder Tree)}
    (hrun : g.parseRun fuel start input (some {}) = (.ok outcome, s))
    (htold : s.tracer = some ⟨E⟩) :
    ∃ s', g.parseRun fuel' start input (some ({} : Recorder Tree)) = (.ok outcome, s') ∧
      s'.tracer = some ⟨E⟩ := by
  have herases := ((Bypass.refl g).erases input.toList hfuel start).bind
    fun value => .of_quiet (.finish value)
  obtain ⟨F, s', htold₁, hrun', htold', -⟩ :=
    herases [] [] _ _ _ _ rfl rfl (beside_init input) hrun
  rw [htold] at htold₁
  cases htold₁
  exact ⟨s', hrun', by rw [htold', shown_of_none]⟩

/-- A recorded parse ends with one result and one list of events only. -/
theorem Records.unique {result result' : Except Halt (Except SyntaxError Tree)}
    (h : g.Records start input result E) (h' : g.Records start input result' E') :
    result = result' ∧ E = E' := by
  obtain ⟨outcome, rfl⟩ := h.exists_ok
  obtain ⟨outcome', rfl⟩ := h'.exists_ok
  obtain ⟨-, fuel, s, hrun, htold⟩ := h
  obtain ⟨-, fuel', s', hrun', htold'⟩ := h'
  obtain ⟨s₁, hmore, htold₁⟩ := exists_parseRun_of_le (Nat.le_max_left fuel fuel') hrun htold
  obtain ⟨s₁', hmore', htold₁'⟩ :=
    exists_parseRun_of_le (Nat.le_max_right fuel fuel') hrun' htold'
  rw [hmore] at hmore'
  cases hmore'
  rw [htold₁] at htold₁'
  cases htold₁'
  exact ⟨rfl, rfl⟩

section Removal

variable {startRules : List String}

/-- Whatever a start rule does without the proxies, it does in the original grammar. -/
theorem withoutProxies_refinedAt {τ : Type} [Tracer τ Tree] (hnames : g.ruleNames.Nodup)
    (hstart : start ∈ startRules) : RefinedAt τ (g.withoutProxies startRules) g start := by
  have hinv : ProxyRemoval.Inv τ startRules g (.visitAll startRules g.rules) :=
    ProxyRemoval.inv_visitAll hnames
  intro fuel
  obtain ⟨fuel', hrefined⟩ := hinv.backward start fuel
  refine ⟨fuel', ?_⟩
  show RefinedBy (({ g with rules := _ } : Grammar).evalRule fuel start) _
  rw [evalRule_kept g _ hinv.unreferenced fuel fun hremoved =>
    hinv.not_start start hremoved hstart]
  exact hrefined

/-- A parse that ends without the proxies ends with them. -/
theorem Records.exists_of_withoutProxies (hnames : g.ruleNames.Nodup)
    (hstart : start ∈ startRules) {outcome : Except SyntaxError Tree}
    (h : (g.withoutProxies startRules).Records start input (.ok outcome) E') :
    ∃ E, g.Records start input (.ok outcome) E := by
  obtain ⟨-, fuel, s, hrun, htold⟩ := h
  have hheeds := (g.withoutProxies startRules).heeds_parseRun fuel start input
    (none : Option (Recorder Tree))
  rw [hrun] at hheeds
  have hends : (g.withoutProxies startRules).EndsWith (Recorder Tree) start input
      (.ok outcome) := by
    rcases hheeds.ended htold with ⟨s', hrun', -⟩ | ⟨e, s', -, hoffer⟩
    · exact ⟨by simp, fuel, congrArg Prod.fst hrun'⟩
    · rw [Tracer.offer_none] at hoffer
      cases congrArg Prod.fst hoffer
  obtain ⟨-, fuel', hrun'⟩ := (withoutProxies_refinedAt hnames hstart).endsWith hends
  have hrun' : (g.parseRun fuel' start input (none : Option (Recorder Tree))).1 =
    .ok outcome := hrun'
  obtain ⟨outcome', E, s', hrecorded, htold', huntraced⟩ :=
    g.exists_recorded fuel' start input (by rw [hrun']; simp)
  rw [hrun'] at huntraced
  cases huntraced
  exact ⟨E, .of_run hrecorded htold'⟩

/-- After the start rule nothing more is told. -/
theorem exists_parseRun_of_evalRule (g : Grammar) (fuel : Nat) {value : Option Tree}
    {outcome : Except SyntaxError Tree} {s s₁ s₁' : State (Recorder Tree)}
    (hfinish : runFrom s₁ (finish value : ParseM _ _) = (.ok outcome, s))
    (heval : runFrom (State.init input (some {})) (g.evalRule fuel start) = (.ok value, s₁'))
    (h : Beside input.toList s₁ s₁') :
    s.tracer = s₁.tracer ∧ ∃ s', g.parseRun fuel start input (some ({} : Recorder Tree)) =
      (.ok outcome, s') ∧ s'.tracer = s₁'.tracer := by
  obtain ⟨s', hfinish', htracer, htracer', -⟩ := (Quiet.finish value).exists_run h hfinish
  refine ⟨htracer, s', ?_, htracer'⟩
  rw [parseRun, parseRule, runFrom_bind, heval, andThen, hfinish']

/-- A recorded parse, and the same without the proxies.  The start rule is invoked in both, and
its body hides the proxies. -/
theorem Records.exists_withoutProxies (hnames : g.ruleNames.Nodup) (hstart : start ∈ startRules)
    {outcome : Except SyntaxError Tree} (h : g.Records start input (.ok outcome) E) :
    ∃ E', (g.withoutProxies startRules).Records start input (.ok outcome) E' ∧
      g.ProxiesErased start E E' := by
  obtain ⟨-, fuel, s, hrun, htold⟩ := h
  obtain ⟨lead, visited, hled⟩ := exists_led startRules hnames
  have hrule : (g.withoutProxies startRules).rule? start =
      (g.rule? start).map (Rule.renameRefs lead) := hled.rule?_withoutProxies (.inr hstart)
  rw [parseRun, parseRule, runFrom_bind] at hrun
  obtain ⟨value, s₁, heval, hfinish⟩ := andThen_eq_ok hrun
  cases fuel with
  | zero => cases heval
  | succ fuel =>
      rw [evalRule] at heval
      cases hr : g.rule? start with
      | none =>
          rw [hr] at heval hrule
          cases heval
          obtain ⟨htracer, s', hrun', htold'⟩ :=
            (g.withoutProxies startRules).exists_parseRun_of_evalRule (fuel + 1) hfinish
              (by rw [evalRule, hrule]; rfl) (beside_init input)
          rw [htracer] at htold
          cases htold
          exact ⟨[], .of_run hrun' htold', .missing hr⟩
      | some r =>
          rw [hr] at heval hrule
          have hbody := Bypass.erases_body
            ((hled.bypass hnames).erases input.toList (Nat.le_refl fuel)) r
          obtain ⟨location, inner, last, s₁', hlast, hkind, htold₁, heval', htold₁', h₁⟩ :=
            hbody.exists_rule start rfl rfl (beside_init input) heval
          obtain ⟨htracer, s', hrun', htold'⟩ :=
            (g.withoutProxies startRules).exists_parseRun_of_evalRule (fuel + 1) hfinish
              (by rw [evalRule, hrule]; exact heval') h₁
          rw [htracer, htold₁] at htold
          cases htold
          exact ⟨_, .of_run hrun' (htold'.trans htold₁'), .invoked location inner hlast hkind⟩

/-- Removing proxies deletes their events from the trace of a parse, except for those of the
outermost invocation, and changes nothing else: all other events stay as they are, in their order.
The trace of a parse is determined by its input (`Records.unique`). -/
theorem records_withoutProxies_iff (hnames : g.ruleNames.Nodup) (hstart : start ∈ startRules)
    (input : String) (result : Except Halt (Except SyntaxError Tree)) (E' : List (Event Tree)) :
    (g.withoutProxies startRules).Records start input result E' ↔
      ∃ E, g.Records start input result E ∧ g.ProxiesErased start E E' := by
  constructor
  · intro h
    obtain ⟨outcome, rfl⟩ := h.exists_ok
    obtain ⟨E, hE⟩ := h.exists_of_withoutProxies hnames hstart
    obtain ⟨E'', h'', herased⟩ := hE.exists_withoutProxies hnames hstart
    rw [(h.unique h'').2]
    exact ⟨E, hE, herased⟩
  · rintro ⟨E, hE, herased⟩
    obtain ⟨outcome, rfl⟩ := hE.exists_ok
    obtain ⟨E'', h'', herased'⟩ := hE.exists_withoutProxies hnames hstart
    rw [herased.unique herased']
    exact h''

end Removal

/-- A start rule that is a proxy and is also referred to, and a proxy for a letter. -/
def recurring : Grammar where
  rules :=
    [⟨"s", .ref "t" default, default⟩,
      ⟨"t", .choice [.seq [.ref "a" default, .ref "s" default], .ref "a" default], default⟩,
      ⟨"a", .ref "b" default, default⟩, ⟨"b", .literal "x" false, default⟩]

/-- The events of two letters without those of proxies, where the start rule is seen once. -/
def recurringEvents : List (EventKind × String) :=
  [(.enter, "s"), (.enter, "t"), (.enter, "b"), (.matched, "b"), (.enter, "t"), (.enter, "b"),
    (.matched, "b"), (.enter, "t"), (.enter, "b"), (.failed, "b"), (.enter, "b"), (.failed, "b"),
    (.failed, "t"), (.enter, "b"), (.matched, "b"), (.matched, "t"), (.matched, "t"),
    (.matched, "s")]

theorem records_withoutProxies_recurring :
    ∃ value E E', recurring.Records "s" "xx" (.ok (.ok value)) E ∧
      recurring.ProxiesErased "s" E E' ∧
      (recurring.withoutProxies ["s"]).Records "s" "xx" (.ok (.ok value)) E' ∧
      E'.map (fun event => (event.kind, event.rule)) = recurringEvents := by
  have hvalue : (((recurring.withoutProxies ["s"]).parseRun 8 "s" "xx"
      (some ({} : Recorder Tree))).1.toOption.bind Except.toOption).isSome = true := by
    decide +kernel
  have hevents : ((recurring.withoutProxies ["s"]).parseRun 8 "s" "xx"
      (some ({} : Recorder Tree))).2.tracer.map
        (·.events.map fun event => (event.kind, event.rule)) = some recurringEvents := by
    decide +kernel
  cases hrun : (recurring.withoutProxies ["s"]).parseRun 8 "s" "xx"
    (some ({} : Recorder Tree)) with
  | mk result s =>
      rw [hrun] at hvalue hevents
      obtain ⟨⟨E'⟩, htold, hmap⟩ := Option.map_eq_some_iff.1 hevents
      match result, hvalue with
      | .ok (.ok value), _ =>
          have h : (recurring.withoutProxies ["s"]).Records "s" "xx" (.ok (.ok value)) E' :=
            .of_run hrun htold
          obtain ⟨E, hE, herased⟩ := (records_withoutProxies_iff (by decide) (by decide) _ _ _).1 h
          exact ⟨value, E, E', hE, herased, h, hmap⟩

end Grammar

end PegGen
