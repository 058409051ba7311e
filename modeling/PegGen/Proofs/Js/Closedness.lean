import PegGen.Proofs.Compile.Outcome
import PegGen.Proofs.Grammar.Redirection
import PegGen.Proofs.Js.Pieces

/-!
# Parser modules are closed

A module declares functions and constants, and calls and uses them elsewhere.  Functions and
constants are made in different traversals, of a grammar that was rewritten before.  Still every
function that is called, listed as a start rule or started from by default is there once, and every
constant is named by some failure (`generate_closed`).

All this is said of the operations that write the module, by the pieces that are read from them.
-/

namespace PegGen

open Js

/-- What a rule mentions.  If it is traced, it tells the tracer its name, once before its expression
and once after a match or a failure. -/
def Rule.mentions (trace : Bool) (r : Rule) : List (Mention Expectation) :=
  let name := .quotes (stringEscape r.name)
  (if trace then [name] else []) ++ r.expression.mentions ++ (if trace then [name, name] else [])

theorem Rule.calls_mem_mentions_iff {trace : Bool} {r : Rule} {name : String} :
    .calls name ∈ r.mentions trace ↔ .calls name ∈ r.expression.mentions := by
  cases trace <;> simp [mentions]

theorem Rule.fails_mem_mentions_iff {trace : Bool} {r : Rule} {x : Expectation} :
    .fails x ∈ r.mentions trace ↔ x ∈ r.expression.expectations := by
  rw [← Expression.fails_mem_mentions_iff]
  cases trace <;> simp [mentions]

namespace Js

/-! ## The parts of a module -/

/-- The function belongs to the rule, and mentions what the rule does. -/
structure FunctionOf (pool : OrderedSet Expectation) (trace : Bool) (r : Rule) (fn : Routine) :
    Prop where
  rule : fn.rule = r.name
  names : Names pool fn.mentions (r.mentions trace)

theorem FunctionOf.of_generated {pool : OrderedSet Expectation} {trace : Bool} {r : Rule}
    {fn : Routine} (h : RoutineFor pool trace r fn) : FunctionOf pool trace r fn := by
  obtain ⟨registers, code, hcode, rfl⟩ := h
  have hnames := names_expressionCode hcode
  have hquotes := Names.quotes pool (stringEscape r.name)
  refine ⟨rfl, ?_⟩
  cases trace with
  | false => simpa [Routine.mentions, routineOf, Rule.mentions] using hnames
  | true =>
      have hall := (hquotes.append hnames).append (hquotes.append hquotes)
      simpa [Routine.mentions, routineOf, traceEnterCode, traceLeaveCode, Stmt.mentionsAll,
        Stmt.mentions, Test.mentions, Rule.mentions] using hall

/-- The rule functions that operations write. -/
def routines (ops : List Code.Op) : List Routine :=
  (ops.filterMap Piece.read?).filterMap fun
    | .routine r => some r
    | _ => none

/-- The constants that operations declare, by number. -/
def constants (ops : List Code.Op) : List (Nat × String) :=
  (ops.filterMap Piece.read?).filterMap fun
    | .constant n declaration => some (n, declaration)
    | _ => none

/-- The rules that operations declare as the one to start from by default. -/
def startDefaults (ops : List Code.Op) : List String :=
  (ops.filterMap Piece.read?).filterMap fun
    | .startDefault rule => some rule
    | _ => none

/-- The constants with which operations report failures outside of rule functions. -/
def entryFailures (ops : List Code.Op) : List Nat :=
  (ops.filterMap Piece.read?).filterMap fun
    | .failure n => some n
    | _ => none

/-- The rule is in a table of start rules. -/
def Lists (ops : List Code.Op) (name : String) : Prop :=
  ∃ names, Piece.startTable (startTable names) ∈ ops.filterMap Piece.read? ∧ name ∈ names

/-- The function of the rule is called in some rule function, is in the table of start rules, or is
the one to start from by default. -/
def Calls (ops : List Code.Op) (name : String) : Prop :=
  (∃ fn ∈ routines ops, .calls name ∈ fn.mentions) ∨ Lists ops name ∨ name ∈ startDefaults ops

/-- The operations write a module whose parts fit together, for some rules and a pool of
expectations. -/
structure Closed (ops : List Code.Op) (o : Options) (pool : OrderedSet Expectation)
    (rules : List Rule) : Prop where
  /-- Every function by whose name one is called is written once. -/
  functions : ∀ name, Calls ops name → ((routines ops).map (·.rule)).count name = 1
  /-- The table has the start rules. -/
  listed : ∀ name, Lists ops name ↔ name ∈ o.startRules
  /-- One of them is the one to start from by default. -/
  startDefault : ∃ first ∈ o.startRules, startDefaults ops = [first]
  /-- The constants are declared from zero on, one for each expectation of the pool. -/
  constants : constants ops = pool.toList.mapIdx fun n e => (n, expectationDeclaration e)
  /-- They are for different expectations. -/
  different : pool.toList.Nodup
  /-- There is a function for each rule, where each test and each failure has the constant of its
  own expectation. -/
  sites : List.Forall₂ (FunctionOf pool o.trace) rules (routines ops)
  /-- After the start rule the end of the input is expected. -/
  entry : ∃ n, entryFailures ops = [n] ∧ pool.toList[n]? = some .endOfInput
  /-- Every constant is used by a failure, after the start rule or in some function. -/
  used : ∀ n < pool.toList.length,
    n ∈ entryFailures ops ∨ ∃ fn ∈ routines ops, .fails n ∈ fn.mentions

/-! ## What a module is made of -/

namespace ParserModule

variable {options : Options} {g : Grammar} {p : ParserModule}

theorem generate_eq_ok (h : generate options g = .ok p) :
    p.options = options ∧ p.first ∈ options.startRules ∧ p.pool = g.pool ∧
      g.rules.mapM (RuleFunction.generate g.pool) = .ok p.functions ∧
      g.pool.toList[p.endConstant]? = some .endOfInput := by
  rw [generate] at h
  cases hstart : options.startRules with
  | nil =>
      rw [hstart] at h
      cases h
  | cons first others =>
      rw [hstart] at h
      obtain ⟨functions, hfunctions, h⟩ := except_bind_eq_ok_iff.1 h
      obtain ⟨endConstant, hend, h⟩ := except_bind_eq_ok_iff.1 h
      cases h
      refine ⟨rfl, .head _, rfl, hfunctions, ?_⟩
      rw [constantOf] at hend
      split at hend
      next n hn =>
        cases hend
        exact OrderedSet.getElem?_of_indexOf? hn
      · cases hend

/-- The parts of a module, as they are read from its code. -/
structure Reads (p : ParserModule) (rules : List Rule) : Prop where
  sites : List.Forall₂ (FunctionOf p.pool p.options.trace) rules (routines p.ops)
  listed : ∀ name, Lists p.ops name ↔ name ∈ p.options.startRules
  startDefaults : startDefaults p.ops = [p.first]
  constants : constants p.ops = p.pool.toList.mapIdx fun n e => (n, expectationDeclaration e)
  entryFailures : entryFailures p.ops = [p.endConstant]

theorem filterMap_mapIdx {α β γ : Type} (f : Nat → α → β) (read : β → Option γ) (l : List α) :
    (l.mapIdx f).filterMap read = l.zipIdx.filterMap fun entry => read (f entry.2 entry.1) := by
  rw [List.mapIdx_eq_zipIdx_map, List.filterMap_map]
  rfl

theorem reads (h : generate options g = .ok p) : p.Reads g.rules := by
  obtain ⟨-, -, hpool, hfunctions, -⟩ := generate_eq_ok h
  obtain ⟨fns, hfns, hall⟩ := exists_routines hfunctions p.options.trace
  have hpieces := filterMap_read?_ops hfns
  constructor
  · have hroutines : routines p.ops = fns := by
      simp [routines, hpieces, filterMap_mapIdx, List.filterMap_map]
    rw [hroutines, hpool]
    exact hall.imp fun _ _ => FunctionOf.of_generated
  · intro name
    rw [Lists, hpieces]
    constructor
    · rintro ⟨names, htable, hname⟩
      have hnames : startTable names = startTable p.options.startRules := by
        simpa [List.mem_mapIdx] using htable
      exact startTable_injective hnames ▸ hname
    · exact fun hname => ⟨_, .head _, hname⟩
  · simp [Js.startDefaults, hpieces, filterMap_mapIdx, List.filterMap_map]
  · simp [Js.constants, hpieces, List.filterMap_map, List.mapIdx_eq_zipIdx_map]
  · simp [Js.entryFailures, hpieces, filterMap_mapIdx, List.filterMap_map]

end ParserModule

/-! ## Functions and constants are there -/

section Sites

variable {pool : OrderedSet Expectation} {trace : Bool} {g : Grammar} {fns : List Routine}

/-- The functions have the names of the rules, in their order. -/
theorem map_rule_of_functions {rules : List Rule}
    (h : List.Forall₂ (FunctionOf pool trace) rules fns) :
    fns.map (·.rule) = rules.map (·.name) := by
  induction h with
  | nil => rfl
  | cons hof _ ih => rw [List.map_cons, List.map_cons, hof.rule, ih]

/-- There is one function for every rule. -/
theorem count_functions (hnames : g.ruleNames.Nodup)
    (h : List.Forall₂ (FunctionOf pool trace) g.rules fns) {name : String}
    (hname : name ∈ g.ruleNames) : (fns.map (·.rule)).count name = 1 := by
  rw [map_rule_of_functions h]
  exact List.count_eq_one_of_mem hnames hname

/-- What is called in a function is a rule. -/
theorem mem_ruleNames_of_calls (hg : g.WellFormed)
    (h : List.Forall₂ (FunctionOf pool trace) g.rules fns) {fn : Routine} (hfn : fn ∈ fns)
    {name : String} (hcalls : .calls name ∈ fn.mentions) : name ∈ g.ruleNames := by
  obtain ⟨r, hr, hof⟩ := exists_mem_of_forall₂ h.flip fn hfn
  have hmentions := Rule.calls_mem_mentions_iff.1 (hof.names.calls_mem hcalls)
  exact hg.refs_defined name ⟨r, hr, Expression.refersTo_of_calls_mem_mentions hmentions⟩

/-- Some function fails with every constant, except for the end of the input. -/
theorem exists_fails_of_functions (hpool : pool = g.collectPool)
    (h : List.Forall₂ (FunctionOf pool trace) g.rules fns) {n : Nat} {x : Expectation}
    (hx : pool.toList[n]? = some x) :
    x = .endOfInput ∨ ∃ fn ∈ fns, .fails n ∈ fn.mentions := by
  have hmem : x ∈ g.collectPool := hpool ▸ List.mem_of_getElem? hx
  rcases Grammar.mem_collectPool.1 hmem with ⟨r, hr, hexpected⟩ | hlast
  · obtain ⟨fn, hfn, hof⟩ := exists_mem_of_forall₂ h r hr
    obtain ⟨n', hfails, hn'⟩ := hof.names.exists_fails (Rule.fails_mem_mentions_iff.2 hexpected)
    obtain ⟨hlt, -⟩ := List.getElem?_eq_some_iff.1 hx
    obtain rfl : n = n' := (List.getElem?_inj hlt pool.nodup).1 (hx.trans hn'.symm)
    exact .inr ⟨fn, hfn, hfails⟩
  · exact .inl hlast

end Sites

/-- The module of a well-formed grammar is closed, if its start rules are rules. -/
theorem ParserModule.closed {options : Options} {g : Grammar} {p : ParserModule}
    (hg : g.WellFormed) (hstart : ∀ name ∈ options.startRules, name ∈ g.ruleNames)
    (h : generate options { g with pool := g.collectPool } = .ok p) :
    Closed p.ops options p.pool g.rules := by
  obtain ⟨rfl, hfirst, hpool, -, hend⟩ := generate_eq_ok h
  have hreads := reads h
  have hsites : List.Forall₂ (FunctionOf p.pool p.options.trace) g.rules (routines p.ops) :=
    hreads.sites
  refine ⟨?functions, hreads.listed, ⟨p.first, hfirst, hreads.startDefaults⟩, hreads.constants,
    p.pool.nodup, hsites, ⟨p.endConstant, hreads.entryFailures, hpool ▸ hend⟩, ?used⟩
  case functions =>
    intro name hname
    refine count_functions hg.names_nodup hsites ?_
    rcases hname with ⟨fn, hfn, hcalls⟩ | hlisted | hdefault
    · exact mem_ruleNames_of_calls hg hsites hfn hcalls
    · exact hstart name ((hreads.listed name).1 hlisted)
    · rw [hreads.startDefaults, List.mem_singleton] at hdefault
      exact hdefault ▸ hstart _ hfirst
  case used =>
    intro n hn
    have hx := List.getElem?_eq_getElem hn
    rcases exists_fails_of_functions hpool hsites hx with hlast | hused
    · have hnumber : n = p.endConstant := by
        refine (List.getElem?_inj hn p.pool.nodup).1 ?_
        rw [hx, hlast, hpool, hend]
      exact .inl (by rw [hreads.entryFailures, hnumber, List.mem_singleton])
    · exact .inr hused

end Js

/-- The code that is generated is that of a closed module, made of the rules and the pool that the
compilation leaves. -/
theorem generate_closed {g : Grammar} {o : Options} {code : String}
    (h : generate g o = .ok code) :
    ∃ p : Js.ParserModule, code = Js.Code.render p.ops ∧ o.resolve g = .ok p.options ∧
      p.pool = (compileDefault g o).work.grammar.pool ∧
      Js.Closed p.ops p.options p.pool (compileDefault g o).work.grammar.rules := by
  obtain ⟨o', p, ho', -, hg, hp, hcode, hwork⟩ := exists_of_compileDefault_ok h
  obtain ⟨startRules, hstarts, rfl⟩ := Options.resolve_eq_ok_iff.1 ho'
  obtain ⟨lead, visited, hled⟩ := Grammar.exists_led startRules hg.names_nodup
  have hdefined : ∀ name ∈ startRules, name ∈ (g.withoutProxies startRules).ruleNames :=
    fun name hname => hled.mem_ruleNames_iff.2 ⟨hstarts.subset name hname, .inr hname⟩
  have hclosed := Js.ParserModule.closed (hg.withoutProxies startRules) hdefined hp
  obtain ⟨hoptions, -, hpool, -⟩ := Js.ParserModule.generate_eq_ok hp
  rw [hwork]
  refine ⟨p, hcode, hoptions ▸ ho', hpool, ?_⟩
  rw [hoptions]
  exact hclosed

/-- Expectations that occur more than once, under a description too, and a rule behind a proxy. -/
def Grammar.labelled : Grammar where
  rules :=
    [⟨"s", .seq [.choice [.literal "x" false, .charClass ⟨[.range '0' '9'], false, false⟩],
        .named "sign" (.choice [.charClass ⟨[.range '0' '9'], false, false⟩, .literal "x" false]),
        .ref "p" default], default⟩,
      ⟨"p", .ref "q" default, default⟩, ⟨"q", .seq [.any, .literal "x" false], default⟩]

theorem generate_closed_labelled :
    ∃ code, generate .labelled {} = .ok code ∧ ∃ p : Js.ParserModule,
      code = Js.Code.render p.ops ∧
      p.pool.toList = [.literal "x" false, .charClass ⟨[.range '0' '9'], false, false⟩,
        .other "sign", .any, .endOfInput] ∧
      Js.Closed p.ops { startRules := ["s"] } p.pool
        (Grammar.labelled.withoutProxies ["s"]).rules := by
  have hoptions : (({} : Options).resolve Grammar.labelled) = .ok { startRules := ["s"] } := rfl
  obtain ⟨p, -, hresult, hwork⟩ := compileDefault_of_wellFormed hoptions (List.cons_ne_nil _ _)
    (by decide)
  obtain ⟨p', hcode, hoptions', hpool, hclosed⟩ := generate_closed hresult
  have hresolved : p'.options = { startRules := ["s"] } :=
    (Except.ok.inj (hoptions.symm.trans hoptions')).symm
  rw [hwork] at hpool hclosed
  rw [hresolved] at hclosed
  refine ⟨p.render, hresult, p', hcode, ?_, hclosed⟩
  rw [hpool]
  show (Grammar.labelled.withoutProxies ["s"]).collectPool.toList = _
  decide

end PegGen
