import PegGen.Proofs.Grammar.Congruence
import PegGen.Proofs.Grammar.EvalRun
import PegGen.Proofs.Parse.Steps

/-!
# Refinement of untraced parses

An action refines another if, without a tracer, it does what the other does unless the other runs
out of fuel.  Refinement is reflexive on actions that leave the tracer alone, transitive, and kept
by everything that evaluation is made of.  So it is kept by evaluation itself: an expression is
refined by refining the rule invocations in it (`RefinedBy.eval`).

More fuel refines less (`Grammar.evalRule_refinedBy_add`).
-/

namespace PegGen

open ParseT

variable {τ α β V : Type}

/-! ## Refinement -/

/-- Without a tracer, `y` does what `x` does unless `x` runs out of fuel. -/
def RefinedBy (x y : ParseM τ α) : Prop :=
  ∀ s, s.tracer = none → (runFrom s x).2.tracer = none ∧
    ((runFrom s x).1 ≠ .error .outOfFuel → runFrom s y = runFrom s x)

namespace RefinedBy

theorem refl {x : ParseM τ α} (h : ∀ s, s.tracer = none → (runFrom s x).2.tracer = none) :
    RefinedBy x x :=
  fun s hs => ⟨h s hs, fun _ => rfl⟩

theorem trans {x y z : ParseM τ α} (hxy : RefinedBy x y) (hyz : RefinedBy y z) :
    RefinedBy x z := by
  intro s hs
  refine ⟨(hxy s hs).1, fun h => ?_⟩
  have hy := (hxy s hs).2 h
  rw [(hyz s hs).2 (by rw [hy]; exact h), hy]

protected theorem pure (a : α) : RefinedBy (pure a : ParseM τ α) (pure a) :=
  refl fun _ hs => hs

theorem pos : RefinedBy (ParseT.pos : ParseM τ Nat) ParseT.pos :=
  refl fun _ hs => hs

theorem seek (p : Nat) : RefinedBy (ParseT.seek p : ParseM τ Unit) (ParseT.seek p) :=
  refl fun _ hs => hs

/-- Running out of fuel is refined by anything. -/
theorem outOfFuel (y : ParseM τ α) : RefinedBy (throw .outOfFuel) y :=
  fun _ hs => ⟨hs, fun h => absurd rfl h⟩

theorem ofStep {f : State τ → Option (α × State τ)}
    (hf : ∀ s a s', f s = some (a, s') → s'.tracer = s.tracer) :
    RefinedBy (ParseT.ofStep f : ParseM τ α) (ParseT.ofStep f) := by
  refine refl fun s hs => ?_
  rw [runFrom_ofStep]
  cases h : f s with
  | none => exact hs
  | some r => exact (hf s r.1 r.2 h).trans hs

theorem consume (e : Expectation) :
    RefinedBy (ParseT.consume e : ParseM τ _) (ParseT.consume e) := by
  refine ofStep fun s r s' h => ?_
  obtain ⟨rest, -, ⟨text, -, -, rfl⟩ | ⟨-, -, rfl⟩⟩ := State.consume?_cases h
  · rfl
  · rw [State.tracer_fail]

theorem finish (result : Option V) :
    RefinedBy (ParseT.finish result : ParseM τ _) (ParseT.finish result) := by
  refine ofStep fun s r s' h => ?_
  obtain ⟨s₁, cache, log, rfl | rfl, rfl⟩ := State.finish?_cases h
  · rfl
  · exact State.tracer_fail _ _

theorem bind {x y : ParseM τ α} {f g : α → ParseM τ β} (hxy : RefinedBy x y)
    (hfg : ∀ a, RefinedBy (f a) (g a)) : RefinedBy (x >>= f) (y >>= g) := by
  intro s hs
  obtain ⟨htracer, hrun⟩ := hxy s hs
  rw [runFrom_bind, runFrom_bind]
  cases hx : runFrom s x with
  | mk r s' =>
      rw [hx] at htracer hrun
      cases r with
      | error halt =>
          refine ⟨htracer, fun h => ?_⟩
          rw [hrun fun heq => h (by cases heq; rfl)]
          rfl
      | ok a =>
          obtain ⟨htracer', hrun'⟩ := hfg a s' htracer
          refine ⟨htracer', fun h => ?_⟩
          rw [hrun (by simp), andThen, andThen, hrun' h]

theorem named {x y : ParseM τ (Option V)} (description : String) (hxy : RefinedBy x y) :
    RefinedBy (ParseT.named description x) (ParseT.named description y) := by
  intro s hs
  obtain ⟨htracer, hrun⟩ := hxy s.silence hs
  rw [runFrom_named, runFrom_named]
  cases hx : runFrom s.silence x with
  | mk r s' =>
      rw [hx] at htracer hrun
      cases r with
      | error halt =>
          refine ⟨htracer, fun h => ?_⟩
          rw [hrun h]
      | ok result =>
          cases result with
          | none => exact ⟨(State.tracer_fail _ _).trans htracer, fun _ => by rw [hrun (by simp)]⟩
          | some value => exact ⟨htracer, fun _ => by rw [hrun (by simp)]⟩

theorem rule [Tracer τ V] {x y : ParseM τ (Option V)} (name : String) (hxy : RefinedBy x y) :
    RefinedBy (ParseT.rule name x) (ParseT.rule name y) := by
  intro s hs
  obtain ⟨htracer, hrun⟩ := hxy s hs
  rw [runFrom_rule hs name x htracer]
  cases hx : runFrom s x with
  | mk r s' =>
      rw [hx] at htracer hrun
      have hy : r ≠ .error .outOfFuel →
          runFrom s (ParseT.rule name y) = closeRule s.pos (r, s') := fun h => by
        rw [runFrom_rule hs name y (by rw [hrun h]; exact htracer), hrun h]
      cases r with
      | error halt => exact ⟨htracer, hy⟩
      | ok result =>
          cases result with
          | none => exact ⟨htracer, fun _ => hy (by simp)⟩
          | some value => exact ⟨htracer, fun _ => hy (by simp)⟩

/-- Evaluation keeps refinement. -/
theorem evalClosed : EvalClosed fun _ (x y : ParseM τ _) => RefinedBy x y where
  pure := .pure
  bind := bind
  consume := consume
  sequence := EvalClosed.sequence_of_moves .pure bind pos seek
  named description _ _ := named description

/-- An evaluation is refined if its rule invocations are. -/
theorem eval {call call' : String → ParseM τ (Option Tree)}
    (h : ∀ name, RefinedBy (call name) (call' name)) (e : Expression) :
    RefinedBy (e.eval call) (e.eval call') :=
  evalClosed.eval h e

end RefinedBy

/-! ## Fuel -/

namespace Grammar

variable [Tracer τ Tree]

/-- One more unit of fuel changes nothing for an evaluation that ends. -/
theorem evalRule_refinedBy_succ (g : Grammar) (fuel : Nat) (name : String) :
    RefinedBy (g.evalRule fuel name : ParseM τ _) (g.evalRule (fuel + 1) name) := by
  induction fuel generalizing name with
  | zero => exact .outOfFuel _
  | succ fuel ih =>
      rw [evalRule, evalRule]
      cases g.rule? name with
      | none => exact .pure _
      | some r => exact (RefinedBy.eval ih r.expression).rule name

/-- More fuel refines less. -/
theorem evalRule_refinedBy_add (g : Grammar) (fuel more : Nat) (name : String) :
    RefinedBy (g.evalRule fuel name : ParseM τ _) (g.evalRule (fuel + more) name) := by
  induction more with
  | zero => exact .refl fun s hs => (evalRule_refinedBy_succ g fuel name s hs).1
  | succ more ih => exact ih.trans (evalRule_refinedBy_succ g (fuel + more) name)

end Grammar

end PegGen
