import Mathlib.Data.List.Find
import PegGen.Grammar.Proxy
import PegGen.Proofs.Parse.Refinement

/-!
# Proxies without meaning

Removing proxies does not change what a grammar parses, nor the errors it gives.

A round of visits replaces, step by step, the references to one proxy by references to its target.
One such step keeps the meaning of every rule, because without a tracer the invocation of a proxy
is the invocation of its target (`runFrom_rule_evalRule`).  Fuel is the only difference: a chain of
proxies takes one unit per link, so the original needs at most twice the fuel of the grammar after
the step (`Grammar.renameRefs_refinedBy`).

After a visit nothing refers to the visited proxy any more, and no later visit changes that, since a
later target is a name that is still referred to (`ProxyRemoval.Inv`).  So the rules that are
dropped at the end are never invoked from the ones that stay.
-/

namespace PegGen

open ParseT

variable {τ : Type}

/-! ## Renaming references -/

namespace Expression

/-- What a renamed expression refers to. -/
theorem refersTo_renameRefs_iff {f : String → String} {e : Expression} {x : String} :
    (e.renameRefs f).RefersTo x ↔ ∃ name, e.RefersTo name ∧ f name = x := by
  induction e using induct with
  | literal => exact ⟨fun h => (nomatch h), fun ⟨_, h, _⟩ => (nomatch h)⟩
  | charClass => exact ⟨fun h => (nomatch h), fun ⟨_, h, _⟩ => (nomatch h)⟩
  | any => exact ⟨fun h => (nomatch h), fun ⟨_, h, _⟩ => (nomatch h)⟩
  | ref name location =>
      rw [renameRefs]
      constructor
      · intro h
        cases h with
        | ref => exact ⟨name, .ref, rfl⟩
      · rintro ⟨_, h, rfl⟩
        cases h with
        | ref => exact .ref
  | seq items ih =>
      rw [renameRefs, renameRefsAll_eq_map]
      constructor
      · intro h
        cases h with
        | seq he h =>
            obtain ⟨e, hmem, rfl⟩ := List.mem_map.1 he
            obtain ⟨name, hname, hx⟩ := (ih e hmem).1 h
            exact ⟨name, .seq hmem hname, hx⟩
      · rintro ⟨name, h, hx⟩
        cases h with
        | seq he h => exact .seq (List.mem_map_of_mem he) ((ih _ he).2 ⟨name, h, hx⟩)
  | choice items ih =>
      rw [renameRefs, renameRefsAll_eq_map]
      constructor
      · intro h
        cases h with
        | choice he h =>
            obtain ⟨e, hmem, rfl⟩ := List.mem_map.1 he
            obtain ⟨name, hname, hx⟩ := (ih e hmem).1 h
            exact ⟨name, .choice hmem hname, hx⟩
      · rintro ⟨name, h, hx⟩
        cases h with
        | choice he h => exact .choice (List.mem_map_of_mem he) ((ih _ he).2 ⟨name, h, hx⟩)
  | named description body ih =>
      rw [renameRefs]
      constructor
      · intro h
        cases h with
        | named h =>
            obtain ⟨name, hname, hx⟩ := ih.1 h
            exact ⟨name, .named hname, hx⟩
      · rintro ⟨name, h, hx⟩
        cases h with
        | named h => exact .named (ih.2 ⟨name, h, hx⟩)

section Eval

variable {call call' : String → ParseM τ (Option Tree)} {f : String → String}

/-- Items that evaluate the same way do so one after the other. -/
theorem evalAll_map {t : Expression → Expression} {es : List Expression}
    (h : ∀ e ∈ es, (t e).eval call = e.eval call') :
    evalAll call (es.map t) = evalAll call' es := by
  induction es with
  | nil => rw [List.map_nil, evalAll, evalAll]
  | cons e es ih =>
      rw [List.map_cons, evalAll, evalAll, h e (.head _), ih fun e he => h e (.tail _ he)]

/-- Alternatives that evaluate the same way give the same first value. -/
theorem evalFirst_map {t : Expression → Expression} {es : List Expression}
    (h : ∀ e ∈ es, (t e).eval call = e.eval call') :
    evalFirst call (es.map t) = evalFirst call' es := by
  induction es with
  | nil => rw [List.map_nil, evalFirst, evalFirst]
  | cons e es ih =>
      rw [List.map_cons, evalFirst, evalFirst, h e (.head _), ih fun e he => h e (.tail _ he)]

/-- Evaluating a renamed expression invokes the rules under their new names. -/
theorem eval_renameRefs (e : Expression) :
    (e.renameRefs f).eval call = e.eval fun name => call (f name) := by
  induction e using induct with
  | literal => rw [renameRefs, eval, eval]
  | charClass => rw [renameRefs, eval, eval]
  | any => rw [renameRefs, eval, eval]
  | ref => rw [renameRefs, eval, eval]
  | seq items ih => rw [renameRefs, eval, eval, renameRefsAll_eq_map, evalAll_map ih]
  | choice items ih => rw [renameRefs, eval, eval, renameRefsAll_eq_map, evalFirst_map ih]
  | named name body ih => rw [renameRefs, eval, eval, ih]

/-- Only the rules that an expression refers to are invoked. -/
theorem eval_congr (e : Expression) (h : ∀ name, e.RefersTo name → call name = call' name) :
    e.eval call = e.eval call' := by
  induction e using induct with
  | literal => rw [eval, eval]
  | charClass => rw [eval, eval]
  | any => rw [eval, eval]
  | ref name location => rw [eval, eval, h name .ref]
  | seq items ih =>
      have hitems := evalAll_map (t := id) fun e he => ih e he fun name hname =>
        h name (.seq he hname)
      rw [List.map_id] at hitems
      rw [eval, eval, hitems]
  | choice items ih =>
      have hitems := evalFirst_map (t := id) fun e he => ih e he fun name hname =>
        h name (.choice he hname)
      rw [List.map_id] at hitems
      rw [eval, eval, hitems]
  | named name body ih => rw [eval, eval, ih fun name hname => h name (.named hname)]

end Eval

end Expression

namespace Grammar

variable [Tracer τ Tree]

theorem rule?_renameRefs (g : Grammar) (f : String → String) (name : String) :
    (g.renameRefs f).rule? name = (g.rule? name).map (Rule.renameRefs f) := by
  rw [rule?, renameRefs, rule?, List.find?_map]
  rfl

/-- The invocation of a rule of a renamed grammar. -/
theorem evalRule_renameRefs_succ (g : Grammar) (f : String → String) (fuel : Nat)
    (name : String) :
    (g.renameRefs f).evalRule (fuel + 1) name =
      match g.rule? name with
      | none => (return none : ParseM τ (Option Tree))
      | some r => rule name (r.expression.eval fun x => (g.renameRefs f).evalRule fuel (f x)) := by
  rw [evalRule, rule?_renameRefs]
  cases g.rule? name with
  | none => rfl
  | some r => exact congrArg (rule name) r.expression.eval_renameRefs

/-! ## The invocation of a proxy -/

/-- An invocation that gives nothing is back at its start. -/
theorem closeRule_evalRule (g : Grammar) (fuel : Nat) (name : String) {s : State τ}
    (hs : s.tracer = none) :
    closeRule s.pos (runFrom s (g.evalRule fuel name)) = runFrom s (g.evalRule fuel name) := by
  cases fuel with
  | zero => rfl
  | succ fuel =>
      rw [evalRule]
      cases hr : g.rule? name with
      | none => rfl
      | some r =>
          have hbody := RefinedBy.eval (evalRule_refinedBy_succ (τ := τ) g fuel) r.expression
          rw [runFrom_rule hs name _ (hbody s hs).1]
          cases runFrom s (r.expression.eval (g.evalRule fuel)) with
          | mk result s' =>
              cases result with
              | error halt => rfl
              | ok value =>
                  cases value with
                  | none => rfl
                  | some value => rfl

/-- The invocation of a rule within that of another is the invocation of the inner rule. -/
theorem runFrom_rule_evalRule (g : Grammar) (fuel : Nat) (outer name : String) {s : State τ}
    (hs : s.tracer = none) :
    runFrom s (rule outer (g.evalRule fuel name)) = runFrom s (g.evalRule fuel name) := by
  rw [runFrom_rule hs outer _ (evalRule_refinedBy_succ g fuel name s hs).1,
    closeRule_evalRule g fuel name hs]

/-! ## One visit -/

section Visit

variable {g : Grammar} {proxy target : String} {r : Rule} {location : Location}

/-- The invocation of a proxy. -/
theorem evalRule_proxy (hproxy : g.rule? proxy = some r) (hr : r.expression = .ref target location)
    (fuel : Nat) :
    (g.evalRule (fuel + 1) proxy : ParseM τ _) = rule proxy (g.evalRule fuel target) := by
  rw [evalRule, hproxy]
  dsimp only
  rw [hr, Expression.eval]

/-- References to the target do all that references to the proxy did. -/
theorem refinedBy_renameRefs (hproxy : g.rule? proxy = some r)
    (hr : r.expression = .ref target location) (fuel : Nat) (name : String) :
    RefinedBy (g.evalRule fuel name : ParseM τ _)
        ((g.renameRefs (redirect proxy target)).evalRule fuel name) ∧
      RefinedBy (g.evalRule fuel name : ParseM τ _)
        ((g.renameRefs (redirect proxy target)).evalRule fuel (redirect proxy target name)) := by
  induction fuel generalizing name with
  | zero => exact ⟨.outOfFuel _, .outOfFuel _⟩
  | succ fuel ih =>
      have hsame : ∀ name, RefinedBy (g.evalRule (fuel + 1) name : ParseM τ _)
          ((g.renameRefs (redirect proxy target)).evalRule (fuel + 1) name) := by
        intro name
        rw [evalRule_renameRefs_succ, evalRule]
        cases g.rule? name with
        | none => exact .pure _
        | some r => exact (RefinedBy.eval (fun x => (ih x).2) r.expression).rule name
      refine ⟨hsame name, ?_⟩
      rw [redirect]
      split
      next heq =>
        rw [heq, evalRule_proxy hproxy hr]
        intro s hs
        rw [runFrom_rule_evalRule g fuel proxy target hs]
        exact ((ih target).1.trans (evalRule_refinedBy_succ _ fuel target)) s hs
      next => exact hsame name

/-- References to the target do no more than references to the proxy did, at half the fuel: the
target itself takes one unit, and the proxy in front of it another. -/
theorem renameRefs_refinedBy (hproxy : g.rule? proxy = some r)
    (hr : r.expression = .ref target location) (fuel : Nat) (name : String) :
    RefinedBy ((g.renameRefs (redirect proxy target)).evalRule fuel name : ParseM τ _)
        (g.evalRule (2 * fuel) name) ∧
      RefinedBy ((g.renameRefs (redirect proxy target)).evalRule fuel
          (redirect proxy target name) : ParseM τ _)
        (g.evalRule (2 * fuel) name) := by
  induction fuel generalizing name with
  | zero => exact ⟨.outOfFuel _, .outOfFuel _⟩
  | succ fuel ih =>
      have hsame : ∀ name,
          RefinedBy ((g.renameRefs (redirect proxy target)).evalRule (fuel + 1) name : ParseM τ _)
            (g.evalRule (2 * fuel + 1) name) := by
        intro name
        rw [evalRule_renameRefs_succ, evalRule]
        cases g.rule? name with
        | none => exact .pure _
        | some r => exact (RefinedBy.eval (fun x => (ih x).2) r.expression).rule name
      have hmore : ∀ name,
          RefinedBy ((g.renameRefs (redirect proxy target)).evalRule (fuel + 1) name : ParseM τ _)
            (g.evalRule (2 * (fuel + 1)) name) :=
        fun name => (hsame name).trans (evalRule_refinedBy_succ g (2 * fuel + 1) name)
      refine ⟨hmore name, ?_⟩
      rw [redirect]
      split
      next heq =>
        show RefinedBy _ (g.evalRule (2 * fuel + 1 + 1) name)
        rw [heq, evalRule_proxy hproxy hr]
        intro s hs
        rw [runFrom_rule_evalRule g (2 * fuel + 1) proxy target hs]
        exact hsame target s hs
      next => exact hmore name

end Visit

/-! ## All visits -/

/-- Whatever a rule does in `g`, it does in `g'` with enough fuel. -/
def RefinedAt (τ : Type) [Tracer τ Tree] (g g' : Grammar) (name : String) : Prop :=
  ∀ fuel, ∃ fuel', RefinedBy (g.evalRule fuel name : ParseM τ _) (g'.evalRule fuel' name)

theorem RefinedAt.refl (g : Grammar) (name : String) : RefinedAt τ g g name :=
  fun fuel => ⟨fuel + 1, evalRule_refinedBy_succ g fuel name⟩

theorem RefinedAt.trans {g₁ g₂ g₃ : Grammar} {name : String} (h₁₂ : RefinedAt τ g₁ g₂ name)
    (h₂₃ : RefinedAt τ g₂ g₃ name) : RefinedAt τ g₁ g₃ name := by
  intro fuel
  obtain ⟨fuel₂, h⟩ := h₁₂ fuel
  obtain ⟨fuel₃, h'⟩ := h₂₃ fuel₂
  exact ⟨fuel₃, h.trans h'⟩

end Grammar

theorem Rule.proxyTarget?_eq_some {r : Rule} {target : String} (h : r.proxyTarget? = some target) :
    ∃ location, r.expression = .ref target location ∧ target ≠ r.name := by
  rw [proxyTarget?] at h
  split at h
  next name location heq =>
    split at h
    · cases h
    next hne =>
      cases h
      exact ⟨location, heq, hne⟩
  · cases h

namespace ProxyRemoval

/-- A visit changes nothing, or redirects the references to a proxy. -/
theorem visit_cases (startRules : List String) (p : ProxyRemoval) (i : Nat) :
    p.visit startRules i = p ∨
    ∃ r target location, r ∈ p.rules ∧ r.expression = .ref target location ∧ target ≠ r.name ∧
      (p.visit startRules i).rules = p.rules.map (Rule.renameRefs (redirect r.name target)) ∧
      (p.visit startRules i).removed =
        if r.name ∈ startRules then p.removed else p.removed ++ [r.name] := by
  rw [visit]
  cases hr : p.rules[i]? with
  | none => exact .inl rfl
  | some r =>
      dsimp only
      cases ht : r.proxyTarget? with
      | none => exact .inl rfl
      | some target =>
          obtain ⟨location, hexpression, hne⟩ := Rule.proxyTarget?_eq_some ht
          exact .inr ⟨r, target, location, List.mem_of_getElem? hr, hexpression, hne, rfl, rfl⟩

/-- What holds of a grammar and the removal of its proxies after every visit. -/
structure Inv (τ : Type) [Tracer τ Tree] (startRules : List String) (g : Grammar)
    (p : ProxyRemoval) : Prop where
  /-- The rules are those of the grammar, in their order. -/
  names : p.rules.map (·.name) = g.ruleNames
  /-- No start rule is removed. -/
  not_start : ∀ name ∈ p.removed, name ∉ startRules
  /-- Nothing refers to a removed rule. -/
  unreferenced : ∀ name ∈ p.removed, ¬ ({ g with rules := p.rules } : Grammar).RefersTo name
  /-- Every rule does what it did in the grammar. -/
  forward : ∀ name, Grammar.RefinedAt τ g { g with rules := p.rules } name
  /-- Every rule did in the grammar what it does now. -/
  backward : ∀ name, Grammar.RefinedAt τ { g with rules := p.rules } g name

variable [Tracer τ Tree] {startRules : List String} {g : Grammar} {p : ProxyRemoval}

/-- After a visit nothing refers to the visited proxy, nor to one visited before.  The target is not
one of these, since the proxy referred to it. -/
theorem not_refersTo_redirect {h : Grammar} {r : Rule} {target name : String} {location : Location}
    (hr : r ∈ h.rules) (hexpression : r.expression = .ref target location) (hne : target ≠ r.name)
    (hname : name = r.name ∨ ¬ h.RefersTo name) :
    ¬ (h.renameRefs (redirect r.name target)).RefersTo name := by
  rintro ⟨r', hr', hrefers⟩
  obtain ⟨r₀, hr₀, rfl⟩ := List.mem_map.1 hr'
  obtain ⟨x, hx, heq⟩ := Expression.refersTo_renameRefs_iff.1 hrefers
  have htarget : h.RefersTo target := ⟨r, hr, by rw [hexpression]; exact .ref⟩
  rw [redirect] at heq
  split at heq
  · rcases hname with hname | hname
    · exact hne (heq.trans hname)
    · exact hname (heq ▸ htarget)
  next hxr =>
    rcases hname with hname | hname
    · exact hxr (heq.trans hname)
    · exact hname (heq ▸ ⟨r₀, hr₀, hx⟩)

theorem Inv.visit (hnames : g.ruleNames.Nodup) (hp : Inv τ startRules g p) (i : Nat) :
    Inv τ startRules g (p.visit startRules i) := by
  rcases visit_cases startRules p i with heq | ⟨r, target, location, hr, hexpression, hne, hrules,
    hremoved⟩
  · rw [heq]
    exact hp
  have hgrammar : ({ g with rules := (p.visit startRules i).rules } : Grammar) =
      ({ g with rules := p.rules } : Grammar).renameRefs (redirect r.name target) := by
    rw [hrules]
    rfl
  have hnames' : ({ g with rules := p.rules } : Grammar).ruleNames.Nodup := by
    show (p.rules.map (·.name)).Nodup
    rw [hp.names]
    exact hnames
  have hrule : ({ g with rules := p.rules } : Grammar).rule? r.name = some r :=
    Grammar.rule?_name hnames' hr
  constructor
  · rw [hrules, List.map_map, ← hp.names]
    rfl
  · intro name hname
    rw [hremoved] at hname
    split at hname
    · exact hp.not_start name hname
    next hstart =>
      rcases List.mem_append.1 hname with hname | hname
      · exact hp.not_start name hname
      · rw [List.mem_singleton.1 hname]
        exact hstart
  · intro name hname
    rw [hgrammar]
    refine not_refersTo_redirect (h := { g with rules := p.rules }) hr hexpression hne ?_
    rw [hremoved] at hname
    split at hname
    · exact .inr (hp.unreferenced name hname)
    · rcases List.mem_append.1 hname with hname | hname
      · exact .inr (hp.unreferenced name hname)
      · exact .inl (List.mem_singleton.1 hname)
  · intro name
    rw [hgrammar]
    exact (hp.forward name).trans fun fuel =>
      ⟨fuel, (Grammar.refinedBy_renameRefs hrule hexpression fuel name).1⟩
  · intro name
    rw [hgrammar]
    refine Grammar.RefinedAt.trans ?_ (hp.backward name)
    exact fun fuel => ⟨2 * fuel, (Grammar.renameRefs_refinedBy hrule hexpression fuel name).1⟩

/-- The invariant holds after all visits. -/
theorem inv_visitAll (hnames : g.ruleNames.Nodup) :
    Inv τ startRules g (visitAll startRules g.rules) := by
  have hfold : ∀ (l : List Nat) (p : ProxyRemoval), Inv τ startRules g p →
      Inv τ startRules g (l.foldl (ProxyRemoval.visit startRules) p) := by
    intro l
    induction l with
    | nil => exact fun _ hp => hp
    | cons i l ih => exact fun p hp => ih _ (hp.visit hnames i)
  refine hfold _ _ ⟨rfl, ?_, ?_, Grammar.RefinedAt.refl g, Grammar.RefinedAt.refl g⟩
  · exact fun _ h => nomatch h
  · exact fun _ h => nomatch h

end ProxyRemoval

/-! ## Whole parses -/

namespace Grammar

/-- A rule that stays is found as before. -/
theorem rule?_kept (g : Grammar) (p : ProxyRemoval) {name : String} (hname : name ∉ p.removed) :
    ({ g with rules := p.kept } : Grammar).rule? name =
      ({ g with rules := p.rules } : Grammar).rule? name := by
  rw [rule?, rule?, ProxyRemoval.kept, List.find?_filter]
  refine List.find?_congr fun r _ => ?_
  by_cases h : r.name = name
  · simp [h, hname]
  · simp [h]

variable [Tracer τ Tree]

/-- Dropping rules that nothing refers to does not change the others. -/
theorem evalRule_kept (g : Grammar) (p : ProxyRemoval)
    (hremoved : ∀ name ∈ p.removed, ¬ ({ g with rules := p.rules } : Grammar).RefersTo name)
    (fuel : Nat) {name : String} (hname : name ∉ p.removed) :
    (({ g with rules := p.kept } : Grammar).evalRule fuel name : ParseM τ _) =
      ({ g with rules := p.rules } : Grammar).evalRule fuel name := by
  induction fuel generalizing name with
  | zero => rfl
  | succ fuel ih =>
      rw [evalRule, evalRule, rule?_kept g p hname]
      cases hr : ({ g with rules := p.rules } : Grammar).rule? name with
      | none => rfl
      | some r =>
          refine congrArg (rule name) (Expression.eval_congr _ fun x hx => ih fun hx' => ?_)
          exact hremoved x hx' ⟨r, (rule?_eq_some hr).1, hx⟩

/-- A rule invocation that is refined gives the same results to a whole parse. -/
theorem RefinedAt.parseRule {g g' : Grammar} {name : String} (h : RefinedAt τ g g' name)
    (fuel : Nat) :
    ∃ fuel', RefinedBy (g.parseRule fuel name : ParseM τ _) (g'.parseRule fuel' name) := by
  obtain ⟨fuel', hrefined⟩ := h fuel
  exact ⟨fuel', hrefined.bind RefinedBy.finish⟩

/-- A parse without a tracer ends with a result. -/
def EndsWith (τ : Type) [Tracer τ Tree] (g : Grammar) (start input : String)
    (result : Except Halt (Except SyntaxError Tree)) : Prop :=
  result ≠ .error .outOfFuel ∧
    ∃ fuel, (runFrom (State.init input none) (g.parseRule fuel start : ParseM τ _)).1 = result

theorem RefinedAt.endsWith {g g' : Grammar} {start input : String}
    {result : Except Halt (Except SyntaxError Tree)} (h : RefinedAt τ g g' start)
    (hg : g.EndsWith τ start input result) : g'.EndsWith τ start input result := by
  obtain ⟨hresult, fuel, hrun⟩ := hg
  obtain ⟨fuel', hrefined⟩ := h.parseRule fuel
  refine ⟨hresult, fuel', ?_⟩
  rw [(hrefined _ rfl).2 (by rw [hrun]; exact hresult), hrun]

/-- A parse ends with one result only. -/
theorem EndsWith.unique {g : Grammar} {start input : String}
    {result result' : Except Halt (Except SyntaxError Tree)}
    (h : g.EndsWith τ start input result) (h' : g.EndsWith τ start input result') :
    result = result' := by
  obtain ⟨hresult, fuel, hrun⟩ := h
  obtain ⟨hresult', fuel', hrun'⟩ := h'
  have hmore := (evalRule_refinedBy_add (τ := τ) g fuel fuel' start).bind RefinedBy.finish
  have hmore' := (evalRule_refinedBy_add (τ := τ) g fuel' fuel start).bind RefinedBy.finish
  have heq := (hmore (State.init input none) rfl).2 fun h => hresult (hrun.symm.trans h)
  have heq' := (hmore' (State.init input none) rfl).2 fun h => hresult' (hrun'.symm.trans h)
  rw [← hrun, ← hrun']
  exact congrArg Prod.fst (heq.symm.trans ((Nat.add_comm fuel fuel') ▸ heq'))

/-- Without its proxies a grammar parses every input from every start rule to the same result. -/
theorem endsWith_withoutProxies_iff {g : Grammar} (hnames : g.ruleNames.Nodup)
    {startRules : List String} {start : String} (hstart : start ∈ startRules) (input : String)
    (result : Except Halt (Except SyntaxError Tree)) :
    g.EndsWith τ start input result ↔
      (g.withoutProxies startRules).EndsWith τ start input result := by
  have hinv : ProxyRemoval.Inv τ startRules g (.visitAll startRules g.rules) :=
    ProxyRemoval.inv_visitAll hnames
  have hkept : ∀ fuel, ((g.withoutProxies startRules).evalRule fuel start : ParseM τ _) =
      ({ g with rules := (ProxyRemoval.visitAll startRules g.rules).rules } : Grammar).evalRule
        fuel start :=
    fun fuel => evalRule_kept g _ hinv.unreferenced fuel
      fun hremoved => hinv.not_start start hremoved hstart
  constructor
  · refine RefinedAt.endsWith fun fuel => ?_
    obtain ⟨fuel', h⟩ := hinv.forward start fuel
    exact ⟨fuel', by rw [hkept]; exact h⟩
  · refine RefinedAt.endsWith fun fuel => ?_
    rw [hkept]
    exact hinv.backward start fuel

/-- A start rule that is a proxy, and a chain of two proxies behind it. -/
def chained : Grammar where
  rules :=
    [⟨"s", .ref "t" default, default⟩, ⟨"t", .seq [.ref "a" default, .ref "b" default], default⟩,
      ⟨"a", .ref "b" default, default⟩, ⟨"b", .ref "c" default, default⟩,
      ⟨"c", .literal "x" false, default⟩]

theorem endsWith_withoutProxies_chained :
    (chained.withoutProxies ["s"]).ruleNames = ["s", "t", "c"] ∧
    (chained.withoutProxies ["s"]).EndsWith LineTracer "s" "xx"
      (.ok (.ok (.node [.leaf "x", .leaf "x"]))) :=
  ⟨by decide, (endsWith_withoutProxies_iff (by decide) (by decide) _ _).1 ⟨nofun, 5, rfl⟩⟩

end Grammar

end PegGen
