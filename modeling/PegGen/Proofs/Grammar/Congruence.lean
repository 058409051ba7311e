import PegGen.Grammar.Eval
import PegGen.Proofs.Grammar.References

/-!
# Relations that evaluation keeps

Evaluation is put together from a few actions.  A relation between actions that holds of these and
is kept by putting them together holds of two evaluations of an expression, as soon as it holds of
the rule invocations in them (`EvalClosed.eval`).  The two may have tracers of different types.  A
property of actions is such a relation too, one that looks at one side only.

A sequence goes back to where it began.  That is one construct here (`Expression.sequence`), since
two evaluations that are related need not begin at the same offset.  Relations that hold of reading
and writing an offset are kept by it (`EvalClosed.sequence_of_moves`).
-/

namespace PegGen

variable {τ τ' : Type}

/-- The value of a sequence whose items are evaluated by an action. -/
def Expression.sequence (items : ParseM τ (Option (List Tree))) : ParseM τ (Option Tree) := do
  let start ← ParseT.pos
  match ← items with
  | some values => return some (.node values)
  | none =>
      ParseT.seek start
      return none

theorem Expression.eval_seq (call : String → ParseM τ (Option Tree)) (items : List Expression) :
    (seq items).eval call = sequence (evalAll call items) := by
  rw [eval]
  rfl

/-- The relation holds of the actions that evaluation is made of. -/
structure EvalClosed (R : ∀ α : Type, ParseM τ α → ParseM τ' α → Prop) : Prop where
  pure : ∀ {α : Type} (a : α), R α (pure a) (pure a)
  bind : ∀ {α β : Type} {x : ParseM τ α} {y : ParseM τ' α} {f : α → ParseM τ β}
    {g : α → ParseM τ' β}, R α x y → (∀ a, R β (f a) (g a)) → R β (x >>= f) (y >>= g)
  consume : ∀ e, R (Option String) (ParseT.consume e) (ParseT.consume e)
  sequence : ∀ {x : ParseM τ (Option (List Tree))} {y : ParseM τ' (Option (List Tree))},
    R _ x y → R (Option Tree) (Expression.sequence x) (Expression.sequence y)
  named : ∀ (description : String) {x : ParseM τ (Option Tree)} {y : ParseM τ' (Option Tree)},
    R (Option Tree) x y → R (Option Tree) (ParseT.named description x) (ParseT.named description y)

namespace EvalClosed

variable {R : ∀ α : Type, ParseM τ α → ParseM τ' α → Prop}
  {call : String → ParseM τ (Option Tree)} {call' : String → ParseM τ' (Option Tree)}

/-- A relation that holds of reading and writing an offset is kept by going back. -/
theorem sequence_of_moves (hpure : ∀ {α : Type} (a : α), R α (Pure.pure a) (Pure.pure a))
    (hbind : ∀ {α β : Type} {x : ParseM τ α} {y : ParseM τ' α} {f : α → ParseM τ β}
      {g : α → ParseM τ' β}, R α x y → (∀ a, R β (f a) (g a)) → R β (x >>= f) (y >>= g))
    (hpos : R Nat ParseT.pos ParseT.pos)
    (hseek : ∀ p, R Unit (ParseT.seek p) (ParseT.seek p))
    {x : ParseM τ (Option (List Tree))} {y : ParseM τ' (Option (List Tree))} (hxy : R _ x y) :
    R (Option Tree) (Expression.sequence x) (Expression.sequence y) := by
  refine hbind hpos fun start => hbind hxy fun result => ?_
  cases result with
  | none => exact hbind (hseek start) fun _ => hpure _
  | some values => exact hpure _

theorem evalAll (hR : EvalClosed R) {es : List Expression}
    (h : ∀ e ∈ es, R _ (e.eval call) (e.eval call')) :
    R _ (Expression.evalAll call es) (Expression.evalAll call' es) := by
  induction es with
  | nil =>
      rw [Expression.evalAll, Expression.evalAll]
      exact hR.pure _
  | cons e es ih =>
      rw [Expression.evalAll, Expression.evalAll]
      refine hR.bind (h e (.head _)) fun result => ?_
      cases result with
      | none => exact hR.pure _
      | some value => exact hR.bind (ih fun e he => h e (.tail _ he)) fun _ => hR.pure _

theorem evalFirst (hR : EvalClosed R) {es : List Expression}
    (h : ∀ e ∈ es, R _ (e.eval call) (e.eval call')) :
    R _ (Expression.evalFirst call es) (Expression.evalFirst call' es) := by
  induction es with
  | nil =>
      rw [Expression.evalFirst, Expression.evalFirst]
      exact hR.pure _
  | cons e es ih =>
      rw [Expression.evalFirst, Expression.evalFirst]
      refine hR.bind (h e (.head _)) fun result => ?_
      cases result with
      | none => exact ih fun e he => h e (.tail _ he)
      | some value => exact hR.pure _

/-- The relation holds of two evaluations whose rule invocations it relates. -/
theorem eval (hR : EvalClosed R) (h : ∀ name, R _ (call name) (call' name)) (e : Expression) :
    R _ (e.eval call) (e.eval call') := by
  induction e using Expression.induct with
  | literal value ignoreCase =>
      rw [Expression.eval, Expression.eval]
      exact hR.bind (hR.consume _) fun _ => hR.pure _
  | charClass k =>
      rw [Expression.eval, Expression.eval]
      exact hR.bind (hR.consume _) fun _ => hR.pure _
  | any =>
      rw [Expression.eval, Expression.eval]
      exact hR.bind (hR.consume _) fun _ => hR.pure _
  | ref name location =>
      rw [Expression.eval, Expression.eval]
      exact h name
  | seq items ih =>
      rw [Expression.eval_seq, Expression.eval_seq]
      exact hR.sequence (hR.evalAll ih)
  | choice items ih =>
      rw [Expression.eval, Expression.eval]
      exact hR.evalFirst ih
  | named name body ih =>
      rw [Expression.eval, Expression.eval]
      exact hR.named name ih

end EvalClosed

end PegGen
