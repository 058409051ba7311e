import PegGen.Proofs.Grammar.Congruence
import PegGen.Proofs.Grammar.EvalRun
import PegGen.Proofs.Parse.Steps

/-!
# Silencers are balanced

An action is balanced if it leaves as many silencers as it found, however it ends.  Everything that
parse actions are built of is balanced or keeps it, so evaluation is balanced.
-/

namespace PegGen

open ParseT

variable {τ α β V : Type}

/-- The action leaves as many silencers as it found. -/
def Balanced (x : ParseM τ α) : Prop :=
  ∀ s, (runFrom s x).2.silencers = s.silencers

namespace Balanced

protected theorem pure (a : α) : Balanced (pure a : ParseM τ α) :=
  fun _ => rfl

protected theorem throw (halt : Halt) : Balanced (throw halt : ParseM τ α) :=
  fun _ => rfl

theorem pos : Balanced (ParseT.pos : ParseM τ Nat) :=
  fun _ => rfl

theorem seek (p : Nat) : Balanced (ParseT.seek p : ParseM τ Unit) :=
  fun _ => rfl

theorem fail (e : Expectation) : Balanced (ParseT.fail e : ParseM τ Unit) :=
  fun s => s.silencers_fail e

/-- Two actions that leave the silencers as they were do so one after the other. -/
theorem bind {x : ParseM τ α} {f : α → ParseM τ β} (hx : Balanced x) (hf : ∀ a, Balanced (f a)) :
    Balanced (x >>= f) := by
  intro s
  have hs := hx s
  rw [runFrom_bind]
  cases hr : runFrom s x with
  | mk r s' =>
      rw [hr] at hs
      cases r with
      | error halt => exact hs
      | ok a => exact (hf a s').trans hs

/-- An elementary step does if it does where it has a result. -/
theorem ofStep {f : State τ → Option (α × State τ)}
    (hf : ∀ s a s', f s = some (a, s') → s'.silencers = s.silencers) :
    Balanced (ParseT.ofStep f : ParseM τ α) := by
  intro s
  rw [runFrom_ofStep]
  cases h : f s with
  | none => rfl
  | some r => exact hf s r.1 r.2 h

theorem consume (e : Expectation) : Balanced (ParseT.consume e : ParseM τ _) := by
  refine ofStep fun s r s' h => ?_
  obtain ⟨rest, -, ⟨text, -, -, rfl⟩ | ⟨-, -, rfl⟩⟩ := State.consume?_cases h
  · rfl
  · exact s.silencers_fail e

theorem location (start stop : Nat) : Balanced (ParseT.location start stop : ParseM τ _) := by
  refine ofStep fun s l s' h => ?_
  obtain ⟨cache, rfl⟩ := State.location?_cases h
  rfl

/-- The silencer that is added is taken away, whether the body ends or halts. -/
theorem silenced {x : ParseM τ α} (hx : Balanced x) : Balanced (ParseT.silenced x) := by
  intro s
  rw [runFrom_silenced]
  show (runFrom s.silence x).2.silencers - 1 = s.silencers
  rw [hx s.silence]
  rfl

/-- The silencer of a description is taken away again. -/
theorem named {x : ParseM τ (Option V)} (description : String) (hx : Balanced x) :
    Balanced (ParseT.named description x) := by
  refine hx.silenced.bind fun result => ?_
  cases result with
  | none => exact (fail _).bind fun _ => .pure _
  | some value => exact .pure _

section Rule

variable [Tracer τ V]

/-- Tracers know nothing of silencers. -/
theorem tell (event : Event V) : Balanced (ParseT.tell event : ParseM τ Unit) := by
  intro s
  rw [ParseT.tell, runFrom_bind, runFrom_get, andThen]
  cases s.tracer with
  | none => rfl
  | some tracer =>
      dsimp only
      rw [runFrom_bind, runFrom_modify, andThen]
      cases (Tracer.trace tracer event).verdict with
      | ok => rfl
      | error e => rfl

theorem report (start stop : Nat) (event : Location → Event V) :
    Balanced (ParseT.report start stop event : ParseM τ Unit) := by
  refine bind (fun _ => rfl) fun s => ?_
  split
  · exact (location start stop).bind fun l => tell (event l)
  · exact .pure _

/-- A rule invocation leaves them as its body does. -/
theorem rule {x : ParseM τ (Option V)} (name : String) (hx : Balanced x) :
    Balanced (ParseT.rule name x) := by
  refine pos.bind fun start => (report _ _ _).bind fun _ => hx.bind fun result => ?_
  cases result with
  | none => exact (seek start).bind fun _ => (report _ _ _).bind fun _ => .pure _
  | some value => exact pos.bind fun stop => (report _ _ _).bind fun _ => .pure _

end Rule

/-- Evaluation keeps balance. -/
theorem evalClosed : EvalClosed fun _ (x _ : ParseM τ _) => Balanced x where
  pure := .pure
  bind := bind
  consume := consume
  sequence {_ y} := EvalClosed.sequence_of_moves (R := fun _ (x _ : ParseM τ _) => Balanced x)
    (y := y) .pure bind pos seek
  named description _ _ := named description

/-- An evaluation is balanced if its rule invocations are. -/
theorem eval {call : String → ParseM τ (Option Tree)} (h : ∀ name, Balanced (call name))
    (e : Expression) : Balanced (e.eval call) :=
  @EvalClosed.eval _ _ _ call call evalClosed h e

end Balanced

/-- So all of evaluation does. -/
theorem Grammar.balanced_evalRule [Tracer τ Tree] (g : Grammar) (fuel : Nat) (name : String) :
    Balanced (g.evalRule fuel name : ParseM τ _) := by
  induction fuel generalizing name with
  | zero => exact .throw _
  | succ fuel ih =>
      rw [evalRule]
      cases g.rule? name with
      | none => exact .pure _
      | some r => exact (Balanced.eval ih r.expression).rule name

end PegGen
