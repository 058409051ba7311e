import PegGen.Proofs.Grammar.EvalRun
import PegGen.Proofs.Grammar.References
import PegGen.Proofs.Parse.PositionCache

/-!
# Evaluation yields what it consumes

An expression that is evaluated at a boundary either gives a value, whose leaves spell the input
between the old and the new offset, or gives nothing and leaves the offset where it was.  So a parse
that succeeds gives a value whose leaves spell the whole input.

A choice goes from one item to the next without going back.  It may, because every expression that
gives nothing has gone back itself: a leaf has not moved, a sequence and a rule return to where they
began, and the others pass on what their parts do.

The statements about actions are of the form `EndsIn s x P`: run from `s`, the action `x` ends in a
value and a state of which `P` holds.  It may run out of fuel instead, or be refused if there is a
tracer, but it never reads at a bad offset.
-/

namespace PegGen

open Text ParseT

variable {τ V α β : Type}

/-! ## Endings of actions -/

/-- What evaluation keeps: the input, whether there is a tracer, and an exact cache. -/
structure State.Follows (s s' : State τ) : Prop where
  input : s'.input = s.input
  isTracing : s'.isTracing = s.isTracing
  cache : s'.CacheExact

namespace State.Follows

variable {s s' s'' : State τ}

theorem refl (hs : s.CacheExact) : s.Follows s :=
  ⟨rfl, rfl, hs⟩

theorem trans (h : s.Follows s') (h' : s'.Follows s'') : s.Follows s'' :=
  ⟨h'.input.trans h.input, h'.isTracing.trans h.isTracing, h'.cache⟩

theorem fail (hs : s.CacheExact) (e : Expectation) : s.Follows (s.fail e) := by
  rw [State.fail]
  split
  · exact ⟨rfl, rfl, hs.isBoundary, hs.position⟩
  · exact .refl hs

end State.Follows

/-- A run from `s` that has ended in a value and a state of which `P` holds, has run out of fuel, or
was refused by a tracer.  There is no ending for a bad offset. -/
inductive Ending (s : State τ) (P : α → State τ → Prop) : Except Halt α × State τ → Prop where
  | value : s.Follows s' → P a s' → Ending s P (.ok a, s')
  | refused : s.isTracing → Ending s P (.error (.refused e), s')
  | outOfFuel : Ending s P (.error .outOfFuel, s')

/-- Run from `s`, the action ends so. -/
def EndsIn (s : State τ) (x : ParseM τ α) (P : α → State τ → Prop) : Prop :=
  Ending s P (runFrom s x)

namespace EndsIn

variable {s s' : State τ} {x : ParseM τ α} {P : α → State τ → Prop}

theorem of_run {a : α} (hrun : runFrom s x = (.ok a, s')) (hfollows : s.Follows s') (hP : P a s') :
    EndsIn s x P := by
  rw [EndsIn, hrun]
  exact .value hfollows hP

protected theorem pure {a : α} (hs : s.CacheExact) (ha : P a s) : EndsIn s (pure a) P :=
  of_run (runFrom_pure a s) (.refl hs) ha

theorem pos (hs : s.CacheExact) : EndsIn s ParseT.pos fun p s' => s.pos = p ∧ s = s' :=
  of_run (runFrom_pos s) (.refl hs) ⟨rfl, rfl⟩

theorem seek (hs : s.CacheExact) (p : Nat) :
    EndsIn s (ParseT.seek p) fun _ s' => s'.pos = p :=
  of_run (runFrom_seek p s) ⟨rfl, rfl, hs.isBoundary, hs.position⟩ rfl

theorem bind {f : α → ParseM τ β} {Q : β → State τ → Prop} (hx : EndsIn s x P)
    (hf : ∀ a s', s.Follows s' → P a s' → EndsIn s' (f a) Q) : EndsIn s (x >>= f) Q := by
  rw [EndsIn] at hx
  rw [EndsIn, runFrom_bind]
  generalize runFrom s x = r at hx
  cases hx with
  | refused htracing => exact .refused htracing
  | outOfFuel => exact .outOfFuel
  | @value s' a hfollows ha =>
      have hrest := hf a s' hfollows ha
      rw [EndsIn] at hrest
      rw [andThen]
      generalize runFrom s' (f a) = r' at hrest
      cases hrest with
      | refused htracing => exact .refused (hfollows.isTracing ▸ htracing)
      | outOfFuel => exact .outOfFuel
      | value hfollows' hb => exact .value (hfollows.trans hfollows') hb

theorem fail (hs : s.CacheExact) (e : Expectation) :
    EndsIn s (ParseT.fail e) fun _ s' => s'.pos = s.pos :=
  of_run (runFrom_fail e s) (.fail hs e) (s.pos_fail e)

theorem silenced (hx : EndsIn s.silence x fun a s' => P a s'.unsilence) :
    EndsIn s (ParseT.silenced x) P := by
  rw [EndsIn] at hx
  show Ending s P ((runFrom s.silence x).1, (runFrom s.silence x).2.unsilence)
  generalize runFrom s.silence x = r at hx
  cases hx with
  | refused htracing => exact .refused htracing
  | outOfFuel => exact .outOfFuel
  | value hfollows ha =>
      obtain ⟨hinput, htracing, hcache⟩ := hfollows
      exact .value ⟨hinput, htracing, hcache.isBoundary, hcache.position⟩ ha

theorem mono {Q : α → State τ → Prop} (hx : EndsIn s x P)
    (hPQ : ∀ a s', s.Follows s' → P a s' → Q a s') : EndsIn s x Q := by
  rw [EndsIn] at hx ⊢
  generalize runFrom s x = r at hx
  cases hx with
  | refused htracing => exact .refused htracing
  | outOfFuel => exact .outOfFuel
  | value hfollows ha => exact .value hfollows (hPQ _ _ hfollows ha)

/-- A report touches what it computes and what the tracer says, and nothing else. -/
theorem reportAside [Tracer τ V] (hs : s.CacheExact) {start stop : Nat}
    (hstart : IsBoundary start s.input) (hstop : IsBoundary stop s.input)
    (event : Location → Event V) :
    EndsIn s (ParseT.report start stop event) fun _ s' =>
      ∃ cache tracer log, s' = { s with cache := cache, tracer := tracer, log := log } := by
  cases htracer : s.tracer with
  | none =>
      exact of_run (runFrom_report htracer start stop event) (.refl hs)
        ⟨s.cache, s.tracer, s.log, rfl⟩
  | some tracer =>
      have htracing : s.isTracing = true := by simp [State.isTracing, htracer]
      rw [EndsIn, runFrom_report_of_tracer hs htracer hstart hstop]
      dsimp only [Reply.result]
      generalize Tracer.trace tracer
        (event ⟨.ofOffset s.input start, .ofOffset s.input stop⟩) = reply
      cases reply.verdict with
      | ok => exact .value ⟨rfl, htracing.symm, hstop, rfl⟩ ⟨_, _, _, rfl⟩
      | error e => exact .refused htracing

theorem report [Tracer τ V] (hs : s.CacheExact) {start stop : Nat}
    (hstart : IsBoundary start s.input) (hstop : IsBoundary stop s.input)
    (event : Location → Event V) :
    EndsIn s (ParseT.report start stop event) fun _ s' => s'.pos = s.pos := by
  refine (reportAside hs hstart hstop event).mono fun _ s' _ haside => ?_
  obtain ⟨cache, tracer, log, rfl⟩ := haside
  rfl

end EndsIn

/-! ## Actions that give what they consume -/

/-- From one offset to another a text was consumed, or the offset did not move. -/
def Consumed (input : List Char) (start : Nat) : Option (List Char) → Nat → Prop
  | some text, stop => sliceBytes? start stop input = some text
  | none, stop => stop = start

namespace Consumed

variable {input t u : List Char} {start mid stop : Nat}

theorem nil (hstart : IsBoundary start input) : Consumed input start (some []) start := by
  obtain ⟨before, rest, hinput, hlength⟩ := hstart
  exact sliceBytes?_eq_some_iff.2 ⟨before, rest, by simpa using hinput, hlength, by simpa⟩

theorem isBoundary (h : Consumed input start (some t) stop) : IsBoundary stop input := by
  obtain ⟨before, rest, hinput, -, hstop⟩ := sliceBytes?_eq_some_iff.1 h
  exact ⟨before ++ t, rest, hinput, hstop⟩

theorem append (h : Consumed input start (some t) mid) (h' : Consumed input mid (some u) stop) :
    Consumed input start (some (t ++ u)) stop := by
  obtain ⟨before, rest, hsplit, hstart, hmid⟩ := sliceBytes?_eq_some_iff.1 h
  obtain ⟨before', rest', hsplit', hmid', hstop⟩ := sliceBytes?_eq_some_iff.1 h'
  rw [hsplit, List.append_assoc before'] at hsplit'
  obtain ⟨rfl, rfl⟩ := append_inj_of_byteLength hsplit' (hmid.trans hmid'.symm)
  refine sliceBytes?_eq_some_iff.2 ⟨before, rest', ?_, hstart, ?_⟩
  · simp [hsplit]
  · simpa using hstop

end Consumed

/-- At a boundary the action gives a value that spells what it consumes, or nothing and consumes
nothing. -/
def Spells (text : V → List Char) (x : ParseM τ (Option V)) : Prop :=
  ∀ s, s.CacheExact → IsBoundary s.pos s.input →
    EndsIn s x fun r s' => Consumed s.input s.pos (r.map text) s'.pos

namespace Spells

variable {text : V → List Char} {x : ParseM τ (Option V)}

theorem nothing : Spells text (pure none : ParseM τ (Option V)) :=
  fun _ hs _ => .pure hs rfl

theorem outOfFuel : Spells text (throw .outOfFuel : ParseM τ (Option V)) :=
  fun _ _ _ => .outOfFuel

/-- Whatever an expectation accepts stands at the front of what is left, so the offset moves past
it to a boundary. -/
theorem consume (e : Expectation) : Spells String.toList (ParseT.consume e : ParseM τ _) := by
  rintro s hs ⟨before, rest, hinput, hlength⟩
  have hrest : s.rest? = some rest := dropBytes?_eq_some_iff.2 ⟨before, hinput, hlength⟩
  rw [EndsIn, ParseT.consume, runFrom_ofStep, State.consume?, hrest, Option.map_some]
  cases hmatched : e.matched? rest with
  | none => exact .value (.fail hs e) (s.pos_fail e)
  | some t =>
      obtain ⟨after, rfl⟩ := Expectation.exists_append_of_matched? hmatched
      refine .value ⟨rfl, rfl, hs.isBoundary, hs.position⟩ ?_
      refine sliceBytes?_eq_some_iff.2 ⟨before, after, ?_, hlength, ?_⟩
      · simpa using hinput
      · simp [hlength]

theorem named (description : String) (hx : Spells text x) :
    Spells text (ParseT.named description x) := by
  intro s hs hpos
  have hbody := hx s.silence ⟨hs.isBoundary, hs.position⟩ hpos
  refine (EndsIn.silenced (P := fun r s' => Consumed s.input s.pos (r.map text) s'.pos)
    hbody).bind ?_
  intro result s₁ hs₁ hresult
  cases result with
  | some value => exact .pure hs₁.cache hresult
  | none =>
      refine (EndsIn.fail hs₁.cache _).bind fun _ s₂ hs₂ hpos₂ => ?_
      exact .pure hs₂.cache (hpos₂.trans hresult)

/-- A rule invocation goes back by itself when its body gives nothing. -/
theorem rule [Tracer τ V] (name : String) (hx : Spells text x) :
    Spells text (ParseT.rule name x) := by
  intro s hs hpos
  refine (EndsIn.pos hs).bind ?_
  rintro _ _ - ⟨rfl, rfl⟩
  refine (EndsIn.report hs hpos hpos _).bind fun _ s₁ hs₁ hpos₁ => ?_
  have hboundary : IsBoundary s₁.pos s₁.input := by rwa [hpos₁, hs₁.input]
  refine (hx s₁ hs₁.cache hboundary).bind fun result s₂ hs₂ hresult => ?_
  rw [hs₁.input, hpos₁] at hresult
  have hinput := hs₂.input.trans hs₁.input
  cases result with
  | none =>
      refine (EndsIn.seek hs₂.cache s.pos).bind fun _ s₃ hs₃ hpos₃ => ?_
      have hboundary : IsBoundary s.pos s₃.input := by rwa [hs₃.input, hinput]
      refine (EndsIn.report hs₃.cache hboundary hboundary _).bind fun _ s₄ hs₄ hpos₄ => ?_
      exact .pure hs₄.cache (hpos₄.trans hpos₃)
  | some value =>
      refine (EndsIn.pos hs₂.cache).bind ?_
      rintro _ _ - ⟨rfl, rfl⟩
      have hstart : IsBoundary s.pos s₂.input := by rwa [hinput]
      have hstop : IsBoundary s₂.pos s₂.input := hinput ▸ hresult.isBoundary
      refine (EndsIn.report hs₂.cache hstart hstop _).bind fun _ s₃ hs₃ hpos₃ => ?_
      exact .pure hs₃.cache (hpos₃ ▸ hresult)

end Spells

/-! ## Evaluation -/

namespace Tree

/-- The texts at the leaves, put together. -/
def text (t : Tree) : List Char :=
  t.leaves.flatMap String.toList

/-- The texts at the leaves of several trees, put together. -/
def textAll (ts : List Tree) : List Char :=
  (leavesAll ts).flatMap String.toList

theorem text_leaf (s : String) : (leaf s).text = s.toList := by
  simp [text, leaves]

theorem text_node (ts : List Tree) : (node ts).text = textAll ts := by
  rw [text, leaves, textAll]

theorem textAll_nil : textAll [] = [] := by
  rw [textAll, leavesAll, List.flatMap_nil]

theorem textAll_cons (t : Tree) (ts : List Tree) : textAll (t :: ts) = t.text ++ textAll ts := by
  rw [textAll, leavesAll, List.flatMap_append, text, textAll]

end Tree

namespace Spells

variable {call : String → ParseM τ (Option Tree)} {es : List Expression}

theorem leaf (e : Expectation) :
    Spells Tree.text (do return (← ParseT.consume e).map Tree.leaf : ParseM τ (Option Tree)) := by
  intro s hs hpos
  refine (consume e s hs hpos).bind fun result s₁ hs₁ hresult => .pure hs₁.cache ?_
  rw [Option.map_map]
  have htext : Tree.text ∘ Tree.leaf = String.toList := funext Tree.text_leaf
  rwa [htext]

/-- The items of a sequence together.  Where the offset is left when one of them gives nothing is
not said: the sequence goes back. -/
theorem evalAll (h : ∀ e ∈ es, Spells Tree.text (e.eval call)) (s : State τ) (hs : s.CacheExact)
    (hpos : IsBoundary s.pos s.input) :
    EndsIn s (Expression.evalAll call es) fun r s' =>
      ∀ values, r = some values → Consumed s.input s.pos (some (Tree.textAll values)) s'.pos := by
  induction es generalizing s with
  | nil =>
      rw [Expression.evalAll]
      refine .pure hs fun values hvalues => ?_
      cases hvalues
      rw [Tree.textAll_nil]
      exact .nil hpos
  | cons e es ih =>
      rw [Expression.evalAll]
      refine (h e (.head _) s hs hpos).bind fun result s₁ hs₁ hresult => ?_
      cases result with
      | none =>
          refine .pure hs₁.cache fun values hvalues => ?_
          cases hvalues
      | some value =>
          have hboundary : IsBoundary s₁.pos s₁.input := hs₁.input ▸ hresult.isBoundary
          refine (ih (fun e he => h e (.tail _ he)) s₁ hs₁.cache hboundary).bind ?_
          intro results s₂ hs₂ hresults
          refine .pure hs₂.cache fun values hvalues => ?_
          obtain ⟨rest, rfl, rfl⟩ := Option.map_eq_some_iff.1 hvalues
          rw [Tree.textAll_cons]
          exact hresult.append (hs₁.input ▸ hresults rest rfl)

/-- An alternative that gives nothing has gone back, so the next one starts where it did. -/
theorem evalFirst (h : ∀ e ∈ es, Spells Tree.text (e.eval call)) :
    Spells Tree.text (Expression.evalFirst call es) := by
  induction es with
  | nil =>
      rw [Expression.evalFirst]
      exact nothing
  | cons e es ih =>
      intro s hs hpos
      rw [Expression.evalFirst]
      refine (h e (.head _) s hs hpos).bind fun result s₁ hs₁ hresult => ?_
      cases result with
      | some value => exact .pure hs₁.cache hresult
      | none =>
          have hback : s₁.pos = s.pos := hresult
          have hboundary : IsBoundary s₁.pos s₁.input := by rwa [hback, hs₁.input]
          have hrest := ih (fun e he => h e (.tail _ he)) s₁ hs₁.cache hboundary
          rwa [hs₁.input, hback] at hrest

/-- An evaluation gives what it consumes if its rule invocations do. -/
theorem eval (hcall : ∀ name, Spells Tree.text (call name)) (e : Expression) :
    Spells Tree.text (e.eval call) := by
  induction e using Expression.induct with
  | literal value ignoreCase =>
      rw [Expression.eval]
      exact leaf _
  | charClass k =>
      rw [Expression.eval]
      exact leaf _
  | any =>
      rw [Expression.eval]
      exact leaf _
  | ref name location =>
      rw [Expression.eval]
      exact hcall name
  | choice items ih =>
      rw [Expression.eval]
      exact evalFirst ih
  | named name body ih =>
      rw [Expression.eval]
      exact ih.named name
  | seq items ih =>
      intro s hs hpos
      rw [Expression.eval]
      refine (EndsIn.pos hs).bind ?_
      rintro _ _ - ⟨rfl, rfl⟩
      refine (evalAll ih s hs hpos).bind fun result s₁ hs₁ hresult => ?_
      cases result with
      | none =>
          refine (EndsIn.seek hs₁.cache s.pos).bind fun _ s₂ hs₂ hpos₂ => ?_
          exact .pure hs₂.cache hpos₂
      | some values =>
          refine .pure hs₁.cache ?_
          rw [Option.map_some, Tree.text_node]
          exact hresult values rfl

end Spells

theorem Grammar.spells_evalRule [Tracer τ Tree] (g : Grammar) (fuel : Nat) (name : String) :
    Spells Tree.text (g.evalRule fuel name : ParseM τ _) := by
  induction fuel generalizing name with
  | zero => exact .outOfFuel
  | succ fuel ih =>
      rw [evalRule]
      cases g.rule? name with
      | none => exact .nothing
      | some r => exact (Spells.eval ih r.expression).rule name

/-! ## Whole parses -/

/-- A parse succeeds only with the value of its start rule, at the end of the input. -/
theorem State.eq_some_of_finish?_ok {s s' : State τ} {result : Option V} {value : V}
    (h : s.finish? result = some (.ok value, s')) :
    result = some value ∧ s.pos = byteLength s.input := by
  cases result with
  | none =>
      obtain ⟨_, -, h⟩ := Option.map_eq_some_iff.1 h
      cases h
  | some v =>
      rw [finish?] at h
      split at h
      next hend =>
        cases h
        exact ⟨rfl, hend⟩
      next =>
        obtain ⟨_, -, h⟩ := Option.map_eq_some_iff.1 h
        cases h

namespace Grammar

variable [Tracer τ Tree]

/-- What a parse consumes goes from the start to the end, so it is the whole input. -/
theorem text_of_parseRule_ok (g : Grammar) (fuel : Nat) (start input : String) (tracer : Option τ)
    {value : Tree} {s' : State τ}
    (h : runFrom (State.init input tracer) (g.parseRule fuel start) = (.ok (.ok value), s')) :
    value.text = input.toList := by
  have hrule := g.spells_evalRule fuel start (State.init input tracer)
    (State.cacheExact_init input tracer) (.zero _)
  rw [EndsIn] at hrule
  rw [parseRule, runFrom_bind] at h
  generalize runFrom (State.init input tracer) (g.evalRule fuel start) = r at hrule h
  cases hrule with
  | refused => cases h
  | outOfFuel => cases h
  | @value s₁ result hfollows hconsumed =>
      rw [andThen, finish, runFrom_ofStep] at h
      split at h
      next r s₂ hfinish =>
        cases h
        obtain ⟨rfl, hend⟩ := State.eq_some_of_finish?_ok hfinish
        obtain ⟨before, rest, hinput, hstart, hstop⟩ := sliceBytes?_eq_some_iff.1 hconsumed
        rw [hfollows.input, hinput] at hend
        obtain rfl : before = [] := byteLength_eq_zero_iff.1 hstart
        obtain rfl : rest = [] := byteLength_eq_zero_iff.1 (by simp at hend hstop; omega)
        rw [List.nil_append, List.append_nil] at hinput
        exact hinput.symm
      next => cases h

/-- At every moment of every run where the state stands at a boundary, an evaluation that neither
runs out of fuel nor is refused by a tracer gives a value whose leaves are the input between the old
and the new offset, or it gives nothing and the offset is the old one.  So the leaves of the value
of a parse are the whole input. -/
theorem evaluation_spells (g : Grammar) (fuel : Nat) (e : Expression) (c : Client τ Tree)
    (input : String) (tracer : Option τ) {m : Moment τ} (hm : m ∈ c.history input tracer)
    (hpos : IsBoundary m.state.pos input.toList) :
    ((∃ value s', runFrom m.state (e.eval (g.evalRule fuel)) = (.ok (some value), s') ∧
        m.state.pos ≤ s'.pos ∧
        sliceBytes? m.state.pos s'.pos input.toList =
          some (value.leaves.flatMap String.toList)) ∨
      (∃ s', runFrom m.state (e.eval (g.evalRule fuel)) = (.ok none, s') ∧
        s'.pos = m.state.pos) ∨
      (m.state.isTracing ∧ ∃ refusal s',
        runFrom m.state (e.eval (g.evalRule fuel)) = (.error (.refused refusal), s')) ∨
      ∃ s', runFrom m.state (e.eval (g.evalRule fuel)) = (.error .outOfFuel, s')) ∧
    ∀ start value s',
      runFrom (State.init input tracer) (g.parseRule fuel start) = (.ok (.ok value), s') →
      value.leaves.flatMap String.toList = input.toList := by
  refine ⟨?_, fun start value s' h => g.text_of_parseRule_ok fuel start input tracer h⟩
  obtain ⟨hinput, hcache⟩ := c.counts_of_mem_history input tracer hm
  rw [← hinput] at hpos ⊢
  have heval := Spells.eval (g.spells_evalRule fuel) e m.state hcache hpos
  rw [EndsIn] at heval
  generalize runFrom m.state (e.eval (g.evalRule fuel)) = r at heval
  cases heval with
  | refused htracing => exact .inr (.inr (.inl ⟨htracing, _, _, rfl⟩))
  | outOfFuel => exact .inr (.inr (.inr ⟨_, rfl⟩))
  | @value s' result hfollows hconsumed =>
      cases result with
      | none => exact .inr (.inl ⟨s', rfl, hconsumed⟩)
      | some value =>
          obtain ⟨before, rest, -, hstart, hstop⟩ := sliceBytes?_eq_some_iff.1 hconsumed
          rw [byteLength_append] at hstop
          exact .inl ⟨value, s', rfl, by omega, hconsumed⟩

/-- A choice whose first item takes a character of two bytes before it gives up. -/
def retrying : Grammar where
  rules :=
    [⟨"s", .choice [.seq [.literal "é" false, .literal "x" false],
      .seq [.literal "é" false, .ref "t" default]], default⟩, ⟨"t", .any, default⟩]

/-- Counts to the end and then takes one character. -/
def starting : Client (Recorder Tree) Tree :=
  .position 9 fun _ => .consume .any fun _ => .done (.ok none)

theorem evaluation_spells_retrying :
    ∃ m ∈ starting.history "λéab" (some {}), m.state.pos = 2 ∧
      ∃ value s', runFrom m.state ((Expression.ref "s" default).eval (retrying.evalRule 3)) =
          (.ok (some value), s') ∧
        value.leaves = ["é", "a"] ∧
        sliceBytes? 2 s'.pos "λéab".toList = some (value.leaves.flatMap String.toList) := by
  have hlast : (starting.history "λéab" (some {})).getLast?.map (fun m => (m.state.pos,
      (runFrom m.state ((Expression.ref "s" default).eval (retrying.evalRule 3))).1.toOption.bind
        fun result => result.map Tree.leaves)) = some (2, some ["é", "a"]) := by decide +kernel
  obtain ⟨m, hm, hrun⟩ := Option.map_eq_some_iff.1 hlast
  obtain ⟨hpos, hleaves⟩ := Prod.mk.inj hrun
  have hmem := List.mem_of_getLast? hm
  have hboundary : IsBoundary m.state.pos "λéab".toList := by
    rw [hpos]
    decide
  rcases (evaluation_spells retrying 3 (.ref "s" default) starting _ _ hmem hboundary).1 with
    ⟨value, s', h, -, hslice⟩ | ⟨s', h, -⟩ | ⟨-, refusal, s', h⟩ | ⟨s', h⟩
  · rw [h] at hleaves
    rw [hpos] at hslice
    exact ⟨m, hmem, hpos, value, s', h, Option.some.inj hleaves, hslice⟩
  · rw [h] at hleaves
    cases hleaves
  · rw [h] at hleaves
    cases hleaves
  · rw [h] at hleaves
    cases hleaves

end Grammar

end PegGen
