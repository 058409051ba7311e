import PegGen.Proofs.Grammar.ProxyTrace
import PegGen.Proofs.Parse.PositionOrder

/-!
# Locations do not end before they begin

An evaluation moves on in the input, or goes back to where it began and no further.  So every rule
that matches ends at its start or later, and what a tracer is told of it is a location in order.
The location of a syntax error covers a character or nothing, and is in order too.

The statements about actions are of the form `Onward input x`: from a state on boundaries of the
input, the action `x` comes to an offset that is not before the one it started from, and records
locations in order only.  What is recorded until the fuel runs out counts.
-/

namespace PegGen

open Text ParseT Tracer

variable {α β : Type} {input : List Char}

/-- A recorder that has kept locations in order only. -/
def State.RecordsInOrder (s : State (Recorder Tree)) : Prop :=
  ∃ kept, s.tracer = some ⟨kept⟩ ∧ ∀ event ∈ kept, event.location.Ordered

/-- A run from the offset `start` has come to one that is not before it, or has run out of fuel. -/
inductive Advanced (input : List Char) (start : Nat) :
    Except Halt α × State (Recorder Tree) → Prop where
  | value : s.OnBoundaries input → start ≤ s.pos → s.RecordsInOrder →
      Advanced input start (.ok a, s)
  | outOfFuel : s.RecordsInOrder → Advanced input start (.error .outOfFuel, s)

/-- From boundaries the action moves on. -/
def Onward (input : List Char) (x : ParseM (Recorder Tree) α) : Prop :=
  ∀ s, s.OnBoundaries input → s.RecordsInOrder → Advanced input s.pos (runFrom s x)

theorem Advanced.bind {start : Nat} {r : Except Halt α × State (Recorder Tree)}
    {f : α → ParseM (Recorder Tree) β} (hr : Advanced input start r)
    (hf : ∀ a, Onward input (f a)) : Advanced input start (andThen f r) := by
  cases hr with
  | outOfFuel hkept => exact .outOfFuel hkept
  | @value a s hs hle hkept =>
      have hrest := hf a s hs hkept
      rw [andThen]
      generalize runFrom s (f a) = r' at hrest
      cases hrest with
      | outOfFuel hkept' => exact .outOfFuel hkept'
      | value hs' hle' hkept' => exact .value hs' (Nat.le_trans hle hle') hkept'

namespace Onward

protected theorem pure (a : α) : Onward input (pure a) :=
  fun _ hs hkept => .value hs (Nat.le_refl _) hkept

theorem outOfFuel : Onward input (throw .outOfFuel : ParseM (Recorder Tree) α) :=
  fun _ _ hkept => .outOfFuel hkept

theorem bind {x : ParseM (Recorder Tree) α} {f : α → ParseM (Recorder Tree) β}
    (hx : Onward input x) (hf : ∀ a, Onward input (f a)) : Onward input (x >>= f) := by
  intro s hs hkept
  rw [runFrom_bind]
  exact (hx s hs hkept).bind hf

theorem fail (e : Expectation) : Onward input (ParseT.fail e) := by
  rintro s hs ⟨kept, htracer, hordered⟩
  refine .value (hs.fail e) (Nat.le_of_eq (s.pos_fail e).symm) ⟨kept, ?_, hordered⟩
  rwa [State.tracer_fail]

theorem consume (e : Expectation) : Onward input (ParseT.consume e) := by
  intro s hs hkept
  obtain ⟨r, s', hconsume, hs'⟩ := hs.consume? e
  rw [ParseT.consume, runFrom_ofStep, hconsume]
  obtain ⟨rest, -, ⟨text, -, rfl, rfl⟩ | ⟨-, rfl, rfl⟩⟩ := State.consume?_cases hconsume
  · exact .value hs' (Nat.le_add_right ..) hkept
  · obtain ⟨kept, htracer, hordered⟩ := hkept
    refine .value hs' (Nat.le_of_eq (s.pos_fail e).symm) ⟨kept, ?_, hordered⟩
    rwa [State.tracer_fail]

/-- A sequence that gives up goes back, but not to before where it began. -/
theorem sequence {x : ParseM (Recorder Tree) (Option (List Tree))} (hx : Onward input x) :
    Onward input (Expression.sequence x) := by
  intro s hs hkept
  rw [Expression.sequence, runFrom_bind, runFrom_pos, andThen, runFrom_bind]
  have hend := hx s hs hkept
  generalize runFrom s x = r at hend
  cases hend with
  | outOfFuel hkept₁ => exact .outOfFuel hkept₁
  | @value result s₁ hs₁ hle hkept₁ =>
      cases result with
      | none => exact .value (hs₁.goTo hs.pos) (Nat.le_refl _) hkept₁
      | some values => exact .value hs₁ hle hkept₁

theorem named (description : String) {x : ParseM (Recorder Tree) (Option Tree)}
    (hx : Onward input x) : Onward input (ParseT.named description x) := by
  refine bind ?_ fun result => ?_
  · intro s hs hkept
    have hend := hx s.silence hs.silence hkept
    show Advanced input s.pos ((runFrom s.silence x).1, (runFrom s.silence x).2.unsilence)
    generalize runFrom s.silence x = r at hend
    cases hend with
    | outOfFuel hkept₁ => exact .outOfFuel hkept₁
    | value hs₁ hle hkept₁ => exact .value hs₁.unsilence hle hkept₁
  · cases result with
    | none => exact (fail _).bind fun _ => .pure _
    | some value => exact .pure _

/-- The closing of an invocation is told at its start, or at the start and an offset that is not
before it. -/
theorem ordered_closing {s : State (Recorder Tree)} (hs : s.OnBoundaries input) {start : Nat}
    (hstart : IsBoundary start input) (hle : start ≤ s.pos) (name : String)
    (result : Option Tree) :
    (Event.closing input name start s.pos result).location.Ordered := by
  cases result with
  | none => exact (Location.ordered_ofOffset_iff hstart hstart).2 (Nat.le_refl _)
  | some value => exact (Location.ordered_ofOffset_iff hstart hs.pos).2 hle

theorem rule (name : String) {x : ParseM (Recorder Tree) (Option Tree)} (hx : Onward input x) :
    Onward input (ParseT.rule name x) := by
  rintro s hs ⟨kept, htracer, hordered⟩
  obtain ⟨s₀, htracer₀, hs₀, hrun⟩ := exists_runFrom_rule hs htracer name x
  have hentered : s₀.RecordsInOrder := by
    refine ⟨_, htracer₀, List.forall_mem_append.2 ⟨hordered, List.forall_mem_singleton.2 ?_⟩⟩
    exact (Location.ordered_ofOffset_iff hs.pos hs.pos).2 (Nat.le_refl _)
  have hbody := hx s₀ hs₀.right hentered
  rw [hs₀.pos] at hbody
  rw [hrun]
  generalize runFrom s₀ x = r at hbody
  cases hbody with
  | outOfFuel hkept₁ => exact .outOfFuel hkept₁
  | @value result s₁ hs₁ hle hkept₁ =>
      obtain ⟨kept₁, htracer₁, hordered₁⟩ := hkept₁
      obtain ⟨s₂, hclosing, htracer₂, hs₂⟩ :=
        exists_runFrom_closing hs₁ htracer₁ hs.pos name result
      rw [andThen, hclosing]
      refine .value hs₂.right ?_ ⟨_, htracer₂, List.forall_mem_append.2
        ⟨hordered₁, List.forall_mem_singleton.2 (ordered_closing hs₁ hs.pos hle name result)⟩⟩
      rw [hs₂.pos]
      cases result with
      | none => exact Nat.le_refl _
      | some value => exact hle

/-- Evaluation moves on. -/
theorem evalClosed : EvalClosed fun _ (x _ : ParseM (Recorder Tree) _) => Onward input x where
  pure := .pure
  bind := bind
  consume := consume
  sequence := sequence
  named description _ _ := named description

/-- An evaluation moves on if its rule invocations do. -/
theorem eval {call : String → ParseM (Recorder Tree) (Option Tree)}
    (h : ∀ name, Onward input (call name)) (e : Expression) : Onward input (e.eval call) :=
  @EvalClosed.eval _ _ _ call call evalClosed h e

end Onward

theorem Grammar.onward_evalRule (g : Grammar) (input : List Char) (fuel : Nat) (name : String) :
    Onward input (g.evalRule fuel name) := by
  induction fuel generalizing name with
  | zero => exact .outOfFuel
  | succ fuel ih =>
      rw [evalRule]
      cases g.rule? name with
      | none => exact .pure _
      | some r => exact (Onward.eval ih r.expression).rule name

/-! ## Whole parses -/

/-- An error covers the character at a boundary, or nothing. -/
theorem Furthest.ordered_error {f : Furthest} (hf : IsBoundary f.pos input) :
    (f.error input).location.Ordered := by
  have hf' := hf
  obtain ⟨before, rest, hinput, hlength⟩ := hf
  rw [error_of_split hinput hlength]
  exact (Location.ordered_ofOffset_iff hf' (isBoundary_after_head hinput hlength)).2
    (Nat.le_add_right ..)

theorem State.OnBoundaries.ordered_of_outcome {τ V : Type} {s : State τ}
    (hs : s.OnBoundaries input) {result : Option V} {e : SyntaxError}
    (he : s.outcome result = .error e) : e.location.Ordered := by
  obtain rfl := hs.input
  cases result with
  | none =>
      cases he
      exact Furthest.ordered_error hs.furthest
  | some value =>
      rw [State.outcome] at he
      split at he
      · cases he
      · cases he
        exact Furthest.ordered_error (hs.fail .endOfInput).furthest

namespace Grammar

/-- A parse records locations in order, and so is the location of its error. -/
theorem recordsInOrder_parseRun (g : Grammar) (fuel : Nat) (start input : String) :
    (g.parseRun fuel start input (some {})).2.RecordsInOrder ∧
      ∀ e, (g.parseRun fuel start input (some ({} : Recorder Tree))).1 = .ok (.error e) →
        e.location.Ordered := by
  have hrule := g.onward_evalRule input.toList fuel start (State.init input (some {}))
    (.init input _) ⟨[], rfl, fun _ h => absurd h List.not_mem_nil⟩
  rw [parseRun, parseRule, runFrom_bind]
  generalize runFrom (State.init input (some ({} : Recorder Tree))) (g.evalRule fuel start) = r
    at hrule
  cases hrule with
  | outOfFuel hkept =>
      refine ⟨hkept, fun e he => ?_⟩
      cases he
  | @value result s hs _ hkept =>
      obtain ⟨cache, log, hfinish, -⟩ := hs.finish?_eq result
      rw [andThen, finish, runFrom_ofStep, hfinish]
      obtain ⟨kept, htracer, hordered⟩ := hkept
      refine ⟨⟨kept, (s.tracer_finished result).trans htracer, hordered⟩, fun e he => ?_⟩
      exact hs.ordered_of_outcome (Except.ok.inj he)

end Grammar

namespace Heeds

variable {τ : Type} [Tracer τ Tree] {kept : List (Event Tree)} {tracer : Option τ}
  {rx : Except Halt α × State (Recorder Tree)} {ry : Except Halt α × State τ}

/-- The tracer is what comes of offering it the recorded events. -/
theorem tracer_eq (h : Heeds input kept tracer rx ry) {E : List (Event Tree)}
    (htold : rx.2.tracer = some ⟨kept ++ E⟩) : (offer tracer E).2 = ry.2.tracer := by
  have hsame : ∀ {E'}, rx.2.tracer = some (⟨kept ++ E'⟩ : Recorder Tree) → E' = E := by
    intro E' htold'
    rw [htold] at htold'
    cases List.append_cancel_left (congrArg Recorder.events (Option.some.inj htold'))
    rfl
  cases h with
  | value htold' hoffer => rw [← hsame htold', hoffer]
  | outOfFuel htold' hoffer => rw [← hsame htold', hoffer]
  | refused htold' hoffer => rw [← hsame htold', hoffer]
  | refusedOutOfFuel htold' hoffer => rw [← hsame htold', hoffer]

/-- What ends with a value has that value with a recorder too. -/
theorem value_eq (h : Heeds input kept tracer rx ry) {a : α} (ha : ry.1 = .ok a) :
    rx.1 = .ok a := by
  cases h with
  | value => exact ha
  | outOfFuel => cases ha
  | refused => cases ha
  | refusedOutOfFuel => cases ha

end Heeds

theorem State.Counts.position?_eq_some {τ : Type} {s : State τ} (hs : s.Counts input)
    {offset : Nat} (hoffset : HasPosition input offset) :
    ∃ s', s.position? offset = some (.ofOffset input (min offset (byteLength input)), s') := by
  obtain rfl := hs.input
  exact ⟨_, State.position?_of_isBoundary hs.cache rfl hoffset⟩

/-- Two offsets are boundaries when they are brought down to the end of the input.  Their positions,
computed at any moments of a run, compare as these boundaries do, and so do their lines and columns
alone.  The location from the one to the other is in order exactly when they are.

Every parse tells its tracer of locations in order only.  They are those that a recorder keeps, up
to the first that the tracer refuses.  If the parse ends in a syntax error, the location of the
error is in order too. -/
theorem positions_in_order {τ V : Type} [Tracer τ V] (c : Client τ V) (input : String)
    (tracer : Option τ) {m m' : Moment τ} (hm : m ∈ c.history input tracer)
    (hm' : m' ∈ c.history input tracer) {a b : Nat} (ha : HasPosition input.toList a)
    (hb : HasPosition input.toList b) :
    let a' := min a (byteLength input.toList)
    let b' := min b (byteLength input.toList)
    (∃ p q s s', m.state.position? a = some (p, s) ∧ m'.state.position? b = some (q, s') ∧
      compare p q = compare a' b' ∧ p.compareLineColumn q = compare a' b') ∧
    (∃ l s, m.state.location? a b = some (l, s) ∧ (l.Ordered ↔ a' ≤ b')) ∧
    ∀ (σ : Type) [Tracer σ Tree] (g : Grammar) (fuel : Nat) (start : String)
      (observer : Option σ),
      (∃ E, (g.parseRun fuel start input (some {})).2.tracer = some (⟨E⟩ : Recorder Tree) ∧
        (∀ event ∈ E, event.location.Ordered) ∧
        (offer observer E).2 = (g.parseRun fuel start input observer).2.tracer) ∧
      ∀ e s, g.parseRun fuel start input observer = (.ok (.error e), s) →
        e.location.Ordered := by
  intro a' b'
  have hs := c.counts_of_mem_history input tracer hm
  have hs' := c.counts_of_mem_history input tracer hm'
  refine ⟨?_, ?_, fun σ _ g fuel start observer => ?_⟩
  · obtain ⟨s, hp⟩ := hs.position?_eq_some ha
    obtain ⟨s', hq⟩ := hs'.position?_eq_some hb
    exact ⟨_, _, s, s', hp, hq, Position.compare_ofOffset ha hb,
      Position.compareLineColumn_ofOffset ha hb⟩
  · obtain ⟨cache, hlocation⟩ := hs.location?_eq_some ha hb
    exact ⟨_, _, hlocation, Location.ordered_ofOffset_iff ha hb⟩
  · obtain ⟨⟨E, htold, hordered⟩, herror⟩ := g.recordsInOrder_parseRun fuel start input
    have hheeds := g.heeds_parseRun fuel start input observer
    refine ⟨⟨E, htold, hordered, hheeds.tracer_eq htold⟩, fun e s hrun => ?_⟩
    exact herror e (hheeds.value_eq (congrArg Prod.fst hrun))

theorem positions_in_order_roaming :
    ∃ m ∈ Client.roaming.history "éa\nλb" (some {}),
      HasPosition "éa\nλb".toList 99 ∧ HasPosition "éa\nλb".toList 4 ∧
      (∃ p q s s', m.state.position? 99 = some (p, s) ∧ m.state.position? 4 = some (q, s') ∧
        compare p q = .gt ∧ p.compareLineColumn q = .gt) ∧
      (∃ l s, m.state.location? 99 4 = some (l, s) ∧ ¬ l.Ordered) ∧
      ∃ E, (Grammar.retrying.parseRun 3 "s" "éa\nλb" (some {})).2.tracer =
          some (⟨E⟩ : Recorder Tree) ∧ E.length = 4 ∧ ∀ event ∈ E, event.location.Ordered := by
  have hlast : (Client.roaming.history "éa\nλb" (some {})).getLast?.isSome := by decide +kernel
  obtain ⟨m, hm⟩ := Option.isSome_iff_exists.1 hlast
  have hmem := List.mem_of_getLast? hm
  have ha : HasPosition "éa\nλb".toList 99 := by decide
  have hb : HasPosition "éa\nλb".toList 4 := by decide
  obtain ⟨⟨p, q, s, s', hp, hq, hcompare, hcolumns⟩, ⟨l, s₁, hl, hordered⟩, hparse⟩ :=
    positions_in_order Client.roaming _ _ hmem hmem ha hb
  obtain ⟨⟨E, htold, hevents, -⟩, -⟩ :=
    hparse (Recorder Tree) Grammar.retrying 3 "s" none
  have hcount : (Grammar.retrying.parseRun 3 "s" "éa\nλb" (some ({} : Recorder Tree))).2.tracer.map
      (·.events.length) = some 4 := by decide +kernel
  rw [htold] at hcount
  refine ⟨m, hmem, ha, hb, ⟨p, q, s, s', hp, hq, hcompare.trans (by decide), hcolumns.trans
    (by decide)⟩, ⟨l, s₁, hl, fun h => absurd (hordered.1 h) (by decide)⟩, E, htold,
    Option.some.inj hcount, hevents⟩

end PegGen
