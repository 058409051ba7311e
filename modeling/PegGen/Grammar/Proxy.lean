import PegGen.Compile.Stages

/-!
# Proxy rules

A proxy is a rule that only refers to another rule, `a = b`.  Whoever refers to a proxy may as well
refer to its target, and then the proxy is only needed as a start rule.

The rules are visited in order.  When the visited rule is a proxy, every reference to it, in all
rules, becomes a reference to its target.  A rule whose turn comes later is looked at as the visits
before it have left it.  So a chain of proxies ends up at its last target, and of a circle of
proxies the last one ends up referring to itself, which is no proxy.
-/

namespace PegGen

/-- The name that a proxy refers to. -/
def Rule.proxyTarget? (r : Rule) : Option String :=
  match r.expression with
  | .ref name _ => if name = r.name then none else some name
  | _ => none

/-- A name, with one name replaced by another. -/
def redirect (proxy target name : String) : String :=
  if name = proxy then target else name

/-- What a round of visits has done so far. -/
structure ProxyRemoval where
  /-- The rules. -/
  rules : List Rule
  /-- The proxies that were found and are not needed any more, in order. -/
  removed : List String := []
  /-- What was noted on the way. -/
  log : List LogRecord := []

namespace ProxyRemoval

/-- Visit the rule with number `i`. -/
def visit (startRules : List String) (p : ProxyRemoval) (i : Nat) : ProxyRemoval :=
  match p.rules[i]? with
  | none => p
  | some r =>
      match r.proxyTarget? with
      | none => p
      | some target =>
          { rules := p.rules.map (Rule.renameRefs (redirect r.name target))
            removed := if r.name ∈ startRules then p.removed else p.removed ++ [r.name]
            log := p.log ++ [⟨.trace, "proxy rule " ++ r.name ++ " -> " ++ target⟩] }

/-- Visit all rules in order. -/
def visitAll (startRules : List String) (rules : List Rule) : ProxyRemoval :=
  (List.range rules.length).foldl (visit startRules) ⟨rules, [], []⟩

/-- The rules that are kept: those without the name of a removed one. -/
def kept (p : ProxyRemoval) : List Rule :=
  p.rules.filter fun r => r.name ∉ p.removed

end ProxyRemoval

/-- The grammar without the proxies that are not start rules. -/
def Grammar.withoutProxies (startRules : List String) (g : Grammar) : Grammar :=
  { g with rules := (ProxyRemoval.visitAll startRules g.rules).kept }

open PassT

variable {m : Type → Type} [Monad m]

/-- Remove the proxies that are not start rules. -/
def removeProxies : Pass m := do
  let g ← grammar
  let startRules := (← read).startRules
  let p := ProxyRemoval.visitAll startRules g.rules
  onSession fun s => { s with log := s.log ++ p.log }
  if p.removed ≠ [] then
    report .info ("removed proxy rules: " ++ Text.joinWith ", " p.removed) none
  setGrammar (g.withoutProxies startRules)

end PegGen
