import PegGen.Compile.Stages

/-!
# The pool of expectations

A parser refers to the expectations of its failures by number.  The pool of a grammar has the
expectation of every node of every rule, each once, in the order in which they first occur, and the
end of the input, which the parser expects when a value does not reach that far.
-/

namespace PegGen

namespace Grammar

/-- The expectations of the nodes of all rules, in order. -/
def expectations (g : Grammar) : List Expectation :=
  g.rules.flatMap (·.expression.expectations)

/-- The pool of the grammar. -/
def collectPool (g : Grammar) : OrderedSet Expectation :=
  (OrderedSet.ofList g.expectations).insert .endOfInput

/-- The pool has the expectations of all rules and the end of the input. -/
theorem mem_collectPool {g : Grammar} {x : Expectation} :
    x ∈ g.collectPool ↔ (∃ r ∈ g.rules, x ∈ r.expression.expectations) ∨ x = .endOfInput := by
  rw [collectPool, OrderedSet.mem_insert, OrderedSet.mem_ofList, expectations, List.mem_flatMap]

end Grammar

open PassT

variable {m : Type → Type} [Monad m]

/-- Fill the pool of the grammar. -/
def collectExpectations : Pass m := do
  let g ← grammar
  let pool := g.collectPool
  note .debug (toString pool.size ++ " expectation constants")
  setGrammar { g with pool := pool }

end PegGen
