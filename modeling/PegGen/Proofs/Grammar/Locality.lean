import PegGen.Proofs.Grammar.Congruence
import PegGen.Proofs.Grammar.EvalRun
import PegGen.Proofs.Parse.PositionCache
import PegGen.Proofs.Trace.Acceptance

/-!
# Evaluation looks ahead only

What an expression gives, and how far it goes, depends on the text that is left and on nothing else
that a parse state holds: not on the text before, not on the failures so far, the silencers or the
cache, and not on whether there is a tracer, as long as it accepts what it is told.

Two evaluations are run side by side, each behind a text of its own.  They stay aligned: both have
come equally far in the text that they share.  They begin and end rule invocations together, so the
second, which has at least as much fuel, runs out of it only if the first does.
-/

namespace PegGen

open Text ParseT Tracer

variable {τ τ' α β : Type} [Tracer τ Tree] [Tracer τ' Tree]

/-! ## States that nothing hinders -/

/-- A state over the text with an exact cache, whose tracer, if there is one, accepts everything. -/
structure State.Unhindered (text : List Char) (s : State τ) : Prop extends s.Counts text where
  accepts : ∀ t, s.tracer = some t → AcceptsAll Tree t

namespace State.Unhindered

variable {text : List Char} {s : State τ}

theorem goTo (hs : s.Unhindered text) (pos : Nat) : Unhindered text { s with pos := pos } :=
  ⟨⟨hs.input, hs.cache.isBoundary, hs.cache.position⟩, hs.accepts⟩

theorem silence (hs : s.Unhindered text) : s.silence.Unhindered text :=
  ⟨⟨hs.input, hs.cache.isBoundary, hs.cache.position⟩, hs.accepts⟩

theorem unsilence (hs : s.Unhindered text) : s.unsilence.Unhindered text :=
  ⟨⟨hs.input, hs.cache.isBoundary, hs.cache.position⟩, hs.accepts⟩

theorem fail (hs : s.Unhindered text) (e : Expectation) : (s.fail e).Unhindered text :=
  ⟨hs.toCounts.fail e, by rw [s.tracer_fail]; exact hs.accepts⟩

/-- A report is accepted, and moves nothing that evaluation looks at. -/
theorem report (hs : s.Unhindered text) {start stop : Nat} (hstart : IsBoundary start text)
    (hstop : IsBoundary stop text) (event : Location → Event Tree) :
    ∃ s', runFrom s (ParseT.report start stop event : ParseM τ Unit) = (.ok (), s') ∧
      s'.Unhindered text ∧ s'.pos = s.pos := by
  cases htracer : s.tracer with
  | none => exact ⟨s, runFrom_report htracer start stop event, hs, rfl⟩
  | some t =>
      have haccepts := hs.accepts t htracer
      obtain ⟨⟨rfl, hcache⟩, -⟩ := hs
      rw [runFrom_report_of_tracer hcache htracer hstart hstop event]
      dsimp only [Reply.result]
      rw [haccepts.verdict]
      refine ⟨_, rfl, ⟨⟨rfl, hstop, rfl⟩, fun t' ht' => ?_⟩, rfl⟩
      cases ht'
      exact haccepts.next _

end State.Unhindered

/-! ## Two runs side by side -/

/-- Two states that have come `n` bytes far in the text that they share, each behind a text of its
own. -/
structure Aligned (p p' text : List Char) (n : Nat) (s : State τ) (s' : State τ') : Prop where
  left : s.Unhindered (p ++ text)
  right : s'.Unhindered (p' ++ text)
  isBoundary : IsBoundary n text
  pos_left : s.pos = byteLength p + n
  pos_right : s'.pos = byteLength p' + n

theorem Aligned.symm {p p' text : List Char} {n : Nat} {s : State τ} {s' : State τ'}
    (h : Aligned p p' text n s s') : Aligned p' p text n s' s :=
  ⟨h.right, h.left, h.isBoundary, h.pos_right, h.pos_left⟩

/-- Two runs that have ended aligned and with the same value, unless the first has run out of
fuel. -/
inductive EndAligned (p p' text : List Char) :
    Except Halt α × State τ → Except Halt α × State τ' → Prop where
  | value : Aligned p p' text n s s' → EndAligned p p' text (.ok a, s) (.ok a, s')
  | outOfFuel : EndAligned p p' text (.error .outOfFuel, s) r

/-- From aligned states the two actions end aligned, unless the first runs out of fuel. -/
def Abreast (p p' text : List Char) (x : ParseM τ α) (y : ParseM τ' α) : Prop :=
  ∀ n s s', Aligned p p' text n s s' → EndAligned p p' text (runFrom s x) (runFrom s' y)

namespace Abreast

variable {p p' text : List Char}

protected theorem pure (a : α) :
    Abreast p p' text (pure a : ParseM τ α) (pure a : ParseM τ' α) :=
  fun _ _ _ h => .value h

theorem bind {x : ParseM τ α} {y : ParseM τ' α} {f : α → ParseM τ β} {g : α → ParseM τ' β}
    (hxy : Abreast p p' text x y) (hfg : ∀ a, Abreast p p' text (f a) (g a)) :
    Abreast p p' text (x >>= f) (y >>= g) := by
  intro n s s' h
  have hend := hxy n s s' h
  rw [runFrom_bind, runFrom_bind]
  generalize runFrom s x = r, runFrom s' y = r' at hend
  cases hend with
  | value h₁ => exact hfg _ _ _ _ h₁
  | outOfFuel => exact .outOfFuel

/-- The same text is left on both sides, so the same is matched. -/
theorem consume (e : Expectation) :
    Abreast p p' text (ParseT.consume e : ParseM τ _) (ParseT.consume e : ParseM τ' _) := by
  intro n s s' h
  obtain ⟨before, rest, htext, hn⟩ := h.isBoundary
  have hleft : s.rest? = some rest :=
    dropBytes?_eq_some_iff.2 ⟨p ++ before, by rw [h.left.input, htext, List.append_assoc],
      by rw [byteLength_append, hn, h.pos_left]⟩
  have hright : s'.rest? = some rest :=
    dropBytes?_eq_some_iff.2 ⟨p' ++ before, by rw [h.right.input, htext, List.append_assoc],
      by rw [byteLength_append, hn, h.pos_right]⟩
  rw [ParseT.consume, ParseT.consume, runFrom_ofStep, runFrom_ofStep, State.consume?, hleft,
    State.consume?, hright, Option.map_some, Option.map_some]
  cases hmatched : e.matched? rest with
  | none =>
      exact .value ⟨h.left.fail e, h.right.fail e, h.isBoundary,
        (s.pos_fail e).trans h.pos_left, (s'.pos_fail e).trans h.pos_right⟩
  | some t =>
      obtain ⟨after, rfl⟩ := Expectation.exists_append_of_matched? hmatched
      have hboundary : IsBoundary (n + byteLength t) text :=
        ⟨before ++ t, after, by rw [htext, List.append_assoc], by rw [byteLength_append, hn]⟩
      refine .value ⟨h.left.goTo _, h.right.goTo _, hboundary, ?_, ?_⟩
      · show s.pos + byteLength t = _
        rw [h.pos_left, Nat.add_assoc]
      · show s'.pos + byteLength t = _
        rw [h.pos_right, Nat.add_assoc]

/-- Both go back equally far. -/
theorem sequence {x : ParseM τ (Option (List Tree))} {y : ParseM τ' (Option (List Tree))}
    (hxy : Abreast p p' text x y) :
    Abreast p p' text (Expression.sequence x) (Expression.sequence y) := by
  intro n s s' h
  have hend := hxy n s s' h
  rw [Expression.sequence, Expression.sequence, runFrom_bind, runFrom_bind, runFrom_pos,
    runFrom_pos, andThen, andThen, runFrom_bind, runFrom_bind]
  generalize runFrom s x = r, runFrom s' y = r' at hend
  cases hend with
  | outOfFuel => exact .outOfFuel
  | @value _ _ _ result h₁ =>
      cases result with
      | some values => exact .value h₁
      | none =>
          exact .value ⟨h₁.left.goTo _, h₁.right.goTo _, h.isBoundary, h.pos_left, h.pos_right⟩

theorem named (description : String) {x : ParseM τ (Option Tree)} {y : ParseM τ' (Option Tree)}
    (hxy : Abreast p p' text x y) :
    Abreast p p' text (ParseT.named description x) (ParseT.named description y) := by
  intro n s s' h
  have hend := hxy n s.silence s'.silence
    ⟨h.left.silence, h.right.silence, h.isBoundary, h.pos_left, h.pos_right⟩
  rw [runFrom_named, runFrom_named]
  generalize runFrom s.silence x = r, runFrom s'.silence y = r' at hend
  cases hend with
  | outOfFuel => exact .outOfFuel
  | @value _ _ _ result h₁ =>
      cases result with
      | some value =>
          exact .value ⟨h₁.left.unsilence, h₁.right.unsilence, h₁.isBoundary, h₁.pos_left,
            h₁.pos_right⟩
      | none =>
          exact .value ⟨h₁.left.unsilence.fail _, h₁.right.unsilence.fail _, h₁.isBoundary,
            (State.pos_fail _ _).trans h₁.pos_left, (State.pos_fail _ _).trans h₁.pos_right⟩

/-- Evaluation keeps abreast. -/
theorem evalClosed :
    EvalClosed fun _ (x : ParseM τ _) (y : ParseM τ' _) => Abreast p p' text x y where
  pure := .pure
  bind := bind
  consume := consume
  sequence := sequence
  named description _ _ := named description

/-- Reports between offsets that are equally far in the shared text. -/
theorem reportThen {n start stop : Nat} {s : State τ} {s' : State τ'}
    (h : Aligned p p' text n s s') (hstart : IsBoundary start text) (hstop : IsBoundary stop text)
    (event : Location → Event Tree) {x : ParseM τ α} {y : ParseM τ' α}
    (hxy : Abreast p p' text x y) :
    EndAligned p p' text
      (runFrom s (ParseT.report (byteLength p + start) (byteLength p + stop) event >>= fun _ => x))
      (runFrom s'
        (ParseT.report (byteLength p' + start) (byteLength p' + stop) event >>= fun _ => y)) := by
  obtain ⟨s₁, hrun, hs₁, hpos⟩ := h.left.report (hstart.behind p) (hstop.behind p) event
  obtain ⟨s₁', hrun', hs₁', hpos'⟩ := h.right.report (hstart.behind p') (hstop.behind p') event
  rw [runFrom_bind, runFrom_bind, hrun, hrun']
  exact hxy n s₁ s₁' ⟨hs₁, hs₁', h.isBoundary, hpos.trans h.pos_left, hpos'.trans h.pos_right⟩

theorem rule (name : String) {x : ParseM τ (Option Tree)} {y : ParseM τ' (Option Tree)}
    (hxy : Abreast p p' text x y) :
    Abreast p p' text (ParseT.rule name x) (ParseT.rule name y) := by
  intro n s s' h
  rw [ParseT.rule, ParseT.rule, runFrom_bind, runFrom_bind, runFrom_pos, runFrom_pos, andThen,
    andThen, h.pos_left, h.pos_right]
  refine reportThen h h.isBoundary h.isBoundary _ fun n₁ s₁ s₁' h₁ => ?_
  have hend := hxy n₁ s₁ s₁' h₁
  rw [runFrom_bind, runFrom_bind]
  generalize runFrom s₁ x = r, runFrom s₁' y = r' at hend
  cases hend with
  | outOfFuel => exact .outOfFuel
  | @value n₂ s₂ s₂' result h₂ =>
      rw [andThen, andThen]
      cases result with
      | some value =>
          rw [runFrom_bind, runFrom_bind, runFrom_pos, runFrom_pos, andThen, andThen, h₂.pos_left,
            h₂.pos_right]
          exact reportThen h₂ h.isBoundary h₂.isBoundary _ (.pure _)
      | none =>
          rw [runFrom_bind, runFrom_bind, runFrom_seek, runFrom_seek, andThen, andThen]
          have hback : Aligned p p' text n { s₂ with pos := byteLength p + n }
              { s₂' with pos := byteLength p' + n } :=
            ⟨h₂.left.goTo _, h₂.right.goTo _, h.isBoundary, rfl, rfl⟩
          exact reportThen hback h.isBoundary h.isBoundary _ (.pure _)

end Abreast

/-- Evaluation with at least as much fuel keeps abreast. -/
theorem Grammar.abreast_evalRule (g : Grammar) (p p' text : List Char) {fuel fuel' : Nat}
    (hle : fuel ≤ fuel') (name : String) :
    Abreast p p' text (g.evalRule fuel name : ParseM τ _)
      (g.evalRule fuel' name : ParseM τ' _) := by
  induction fuel generalizing fuel' name with
  | zero => exact fun _ _ _ _ => .outOfFuel
  | succ fuel ih =>
      obtain ⟨fuel', rfl⟩ := Nat.exists_eq_add_of_le' hle
      rw [← Nat.add_assoc, evalRule, evalRule]
      cases g.rule? name with
      | none => exact .pure _
      | some r => exact (Abreast.evalClosed.eval (ih (by omega)) r.expression).rule name

/-! ## Evaluation from any two states -/

/-- At two moments of any two runs at which the same text is left, an expression gives the same
value and goes equally far, or runs out of fuel both times, whatever else the states hold.  The
tracers, where there are any, accept everything. -/
theorem Grammar.evaluation_looks_ahead (g : Grammar) (fuel : Nat) (e : Expression)
    (c : Client τ Tree) (c' : Client τ' Tree) (input input' : String) (tracer : Option τ)
    (tracer' : Option τ') {m : Moment τ} {m' : Moment τ'} (hm : m ∈ c.history input tracer)
    (hm' : m' ∈ c'.history input' tracer') {rest : List Char} (hrest : m.state.rest? = some rest)
    (hrest' : m'.state.rest? = some rest)
    (haccepts : ∀ t, m.state.tracer = some t → AcceptsAll Tree t)
    (haccepts' : ∀ t, m'.state.tracer = some t → AcceptsAll Tree t) :
    (∃ value n s s',
      runFrom m.state (e.eval (g.evalRule fuel)) = (.ok value, s) ∧
      runFrom m'.state (e.eval (g.evalRule fuel)) = (.ok value, s') ∧
      s.pos = m.state.pos + n ∧ s'.pos = m'.state.pos + n) ∨
    ∃ s s',
      runFrom m.state (e.eval (g.evalRule fuel)) = (.error .outOfFuel, s) ∧
      runFrom m'.state (e.eval (g.evalRule fuel)) = (.error .outOfFuel, s') := by
  obtain ⟨-, hcache⟩ := c.counts_of_mem_history input tracer hm
  obtain ⟨-, hcache'⟩ := c'.counts_of_mem_history input' tracer' hm'
  obtain ⟨p, hinput, hpos⟩ := dropBytes?_eq_some_iff.1 hrest
  obtain ⟨p', hinput', hpos'⟩ := dropBytes?_eq_some_iff.1 hrest'
  have haligned : Aligned p p' rest 0 m.state m'.state :=
    ⟨⟨⟨hinput, hcache⟩, haccepts⟩, ⟨⟨hinput', hcache'⟩, haccepts'⟩, .zero rest, hpos.symm,
      hpos'.symm⟩
  have hfuel := Nat.le_refl fuel
  have hend := Abreast.evalClosed.eval (g.abreast_evalRule p p' rest hfuel) e _ _ _ haligned
  have hend' := Abreast.evalClosed.eval (g.abreast_evalRule p' p rest hfuel) e _ _ _ haligned.symm
  generalize runFrom m.state (e.eval (g.evalRule fuel)) = r,
    runFrom m'.state (e.eval (g.evalRule fuel)) = r' at hend hend'
  cases hend with
  | outOfFuel =>
      cases hend' with
      | outOfFuel => exact .inr ⟨_, _, rfl, rfl⟩
  | @value n s s' value h =>
      refine .inl ⟨value, n, s, s', rfl, rfl, ?_, ?_⟩
      · rw [h.pos_left, hpos]
      · rw [h.pos_right, hpos']

/-- A choice whose first item takes a character before it gives up. -/
def Grammar.wavering : Grammar where
  rules :=
    [⟨"s", .choice [.seq [.any, .literal "x" false], .seq [.ref "t" default, .any]], default⟩,
      ⟨"t", .named "letter" .any, default⟩]

/-- Takes a character and counts to the end. -/
def Client.arriving : Client (Recorder Tree) Tree :=
  .consume .any fun _ => .position 9 fun _ => .done (.ok none)

/-- Fails at the end, goes back and makes a named call. -/
def Client.hushed : Client LineTracer Tree :=
  .seek 2 (.fail .any (.seek 0 (.named "n" (.done (.ok none)) fun _ => .done (.ok none))))

theorem Grammar.evaluation_looks_ahead_wavering :
    ∃ m ∈ Client.arriving.history "ßab" (some {}), ∃ m' ∈ Client.hushed.history "ab" none,
      m.state.pos = 2 ∧ m'.state.pos = 0 ∧ m'.state.silencers = 1 ∧ m'.state.furthest.pos = 2 ∧
      ∃ value s s',
        runFrom m.state ((Expression.ref "s" default).eval (wavering.evalRule 3)) =
          (.ok (some value), s) ∧
        runFrom m'.state ((Expression.ref "s" default).eval (wavering.evalRule 3)) =
          (.ok (some value), s') ∧
        value.leaves = ["a", "b"] ∧ s.pos = 4 ∧ s'.pos = 2 := by
  have hleft : (Client.arriving.history "ßab" (some {})).getLast?.map (fun m =>
      (m.state.pos, m.state.rest?,
        (runFrom m.state ((Expression.ref "s" default).eval (wavering.evalRule 3))).2.pos,
        (runFrom m.state
            ((Expression.ref "s" default).eval (wavering.evalRule 3))).1.toOption.bind
          fun result => result.map Tree.leaves)) =
      some (2, some ['a', 'b'], 4, some ["a", "b"]) := by decide +kernel
  have hright : (Client.hushed.history "ab" none)[4]?.map (fun m =>
      (m.state.pos, m.state.rest?, m.state.silencers, m.state.furthest.pos, m.state.tracer)) =
      some (0, some ['a', 'b'], 1, 2, none) := by decide +kernel
  obtain ⟨m, hm, hleft⟩ := Option.map_eq_some_iff.1 hleft
  obtain ⟨m', hm', hright⟩ := Option.map_eq_some_iff.1 hright
  simp only [Prod.mk.injEq] at hleft hright
  obtain ⟨hpos, hrest, hstop, hleaves⟩ := hleft
  obtain ⟨hpos', hrest', hsilencers, hfurthest, htracer⟩ := hright
  have hmem := List.mem_of_getLast? hm
  have hmem' := List.mem_of_getElem? hm'
  refine ⟨m, hmem, m', hmem', hpos, hpos', hsilencers, hfurthest, ?_⟩
  rcases evaluation_looks_ahead wavering 3 (.ref "s" default) _ _ _ _ _ _ hmem hmem' hrest hrest'
    (fun t _ => t.acceptsAll) (fun t ht => by rw [htracer] at ht; cases ht) with
    ⟨result, n, s, s', h, h', hn, hn'⟩ | ⟨s, s', h, -⟩
  · rw [h] at hleaves hstop
    obtain ⟨value, rfl, hvalue⟩ := Option.map_eq_some_iff.1 hleaves
    have hstop : s.pos = 4 := hstop
    exact ⟨value, s, s', h, h', hvalue, hstop, by omega⟩
  · rw [h] at hleaves
    cases hleaves

end PegGen
