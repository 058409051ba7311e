import PegGen.Compile.Stages

/-!
# Checking grammars

Two mistakes make a grammar useless: a rule with the name of an earlier one, and a reference to a
rule that does not exist.  Both checks report every mistake and change nothing.
-/

namespace PegGen

namespace Grammar

/-- The rules that have the name of an earlier rule, each with the first rule of its name.  `seen`
are the rules before. -/
def duplicatesAfter (seen : List Rule) : List Rule → List (Rule × Rule)
  | [] => []
  | r :: rules =>
      match seen.find? (·.name = r.name) with
      | some first => (r, first) :: duplicatesAfter seen rules
      | none => duplicatesAfter (seen ++ [r]) rules

/-- The rules that have the name of an earlier rule, each with the first rule of its name. -/
def duplicates (g : Grammar) : List (Rule × Rule) :=
  duplicatesAfter [] g.rules

/-- The references in the rules, in order. -/
def refs (g : Grammar) : List (String × Location) :=
  g.rules.flatMap (·.expression.refs)

/-- The references that name no rule, in order. -/
def undefinedRefs (g : Grammar) : List (String × Location) :=
  g.refs.filter fun r => r.1 ∉ g.ruleNames

end Grammar

open PassT

variable {m : Type → Type} [Monad m]

/-- Report errors, one after the other. -/
def reportErrors : List (String × Location) → Pass m
  | [] => return ()
  | (message, location) :: rest => do
      report .error message (some location)
      reportErrors rest

/-- The error for a rule that has the name of an earlier one. -/
def duplicateError (r first : Rule) : String × Location :=
  ("Rule \"" ++ r.name ++ "\" is already defined at " ++ first.location.start.render, r.location)

/-- The error for a reference to a rule that does not exist. -/
def undefinedError (name : String) (location : Location) : String × Location :=
  ("Rule \"" ++ name ++ "\" is not defined", location)

/-- Report every rule that has the name of an earlier one. -/
def reportDuplicates : Pass m := do
  reportErrors ((← grammar).duplicates.map fun (r, first) => duplicateError r first)

/-- Report every reference to a rule that does not exist. -/
def reportUndefined : Pass m := do
  reportErrors ((← grammar).undefinedRefs.map fun (name, location) =>
    undefinedError name location)

end PegGen
