import PegGen.Proofs.Compile.Stages
import PegGen.Proofs.Js.Generation

/-!
# How a compilation ends

The outcome of compiling a grammar through the default stages depends on four questions, asked in
this order.  Is there a rule?  Are the requested start rules rules of the grammar?  Do the rules
have different names, and are all references to rules?  If so, there is code.  `generate_outcome`
says so.

The proof follows the stages.  The check stage fails exactly for a grammar that is not well formed
(`runWith_checkStage_ok`, `runWith_checkStage_error`).  The transform stage reports nothing but an
information.  The generate stage first collects the expectations of the grammar as it then is, so
generation finds every constant it looks for, whatever the stage before has made of the rules.
-/

namespace PegGen

open PassT

/-! ## Start rules -/

namespace Options

/-- The first of the requested start rules that is not a rule of the grammar.  A `*` requests the
rules that there are. -/
structure FirstUnknown (o : Options) (g : Grammar) (name : String) : Prop where
  /-- Not all rules are requested. -/
  not_all : "*" ∉ o.startRules
  /-- There is no rule of this name. -/
  not_rule : name ∉ g.ruleNames
  /-- What is requested before are rules. -/
  first : ∃ before after, o.startRules = before ++ name :: after ∧ ∀ r ∈ before, r ∈ g.ruleNames

theorem find?_eq_some_iff_firstUnknown {o : Options} {g : Grammar} {name : String}
    (hall : "*" ∉ o.startRules) :
    o.startRules.find? (· ∉ g.ruleNames) = some name ↔ o.FirstUnknown g name := by
  rw [List.find?_eq_some_iff_append]
  constructor
  · rintro ⟨hname, before, after, heq, hbefore⟩
    exact ⟨hall, by simpa using hname, before, after, heq, fun r hr => by
      simpa using hbefore r hr⟩
  · rintro ⟨-, hname, before, after, heq, hbefore⟩
    exact ⟨by simpa using hname, before, after, heq, fun r hr => by simpa using hbefore r hr⟩

theorem resolve_empty {o : Options} {g : Grammar} (h : g.rules = []) :
    o.resolve g = .error .emptyGrammar := by
  simp [resolve, Grammar.ruleNames, h]

theorem resolve_unknown {o : Options} {g : Grammar} {name : String} (hne : g.rules ≠ [])
    (h : o.FirstUnknown g name) : o.resolve g = .error (.unknownStartRule name) := by
  obtain ⟨r, rules, hrules⟩ := List.exists_cons_of_ne_nil hne
  have hnames : g.ruleNames = r.name :: rules.map (·.name) := by
    rw [Grammar.ruleNames, hrules, List.map_cons]
  have hstart : o.startRules ≠ [] := by
    obtain ⟨before, after, heq, -⟩ := h.first
    simp [heq]
  simp only [resolve, hnames]
  rw [← hnames, resolveStartRules, if_neg hstart, if_neg h.not_all,
    (find?_eq_some_iff_firstUnknown h.not_all).2 h]
  rfl

/-- Without an unknown start rule the options resolve to at least one. -/
theorem resolve_known {o : Options} {g : Grammar} (hne : g.rules ≠ [])
    (h : ¬ ∃ name, o.FirstUnknown g name) :
    ∃ o', o.resolve g = .ok o' ∧ o'.startRules ≠ [] := by
  obtain ⟨r, rules, hrules⟩ := List.exists_cons_of_ne_nil hne
  have hnames : g.ruleNames = r.name :: rules.map (·.name) := by
    rw [Grammar.ruleNames, hrules, List.map_cons]
  simp only [resolve, hnames]
  rw [← hnames, resolveStartRules]
  by_cases hstart : o.startRules = []
  · rw [if_pos hstart]
    exact ⟨_, rfl, by simp⟩
  rw [if_neg hstart]
  by_cases hall : "*" ∈ o.startRules
  · rw [if_pos hall]
    exact ⟨_, rfl, by simp [hnames]⟩
  rw [if_neg hall]
  cases hfind : o.startRules.find? (· ∉ g.ruleNames) with
  | some name => exact absurd ⟨name, (find?_eq_some_iff_firstUnknown hall).1 hfind⟩ h
  | none => exact ⟨_, rfl, hstart⟩

/-- The start rules that the options stand for, in a grammar whose rules have these names. -/
inductive StartsFrom (o : Options) : List String → List String → Prop where
  /-- No request stands for the first rule. -/
  | first : o.startRules = [] → StartsFrom o (name :: names) [name]
  /-- A `*` stands for all rules. -/
  | all : names ≠ [] → "*" ∈ o.startRules → StartsFrom o names names
  /-- Other requests stand for themselves. -/
  | listed : o.startRules ≠ [] → "*" ∉ o.startRules → (∀ r ∈ o.startRules, r ∈ names) →
      StartsFrom o names o.startRules

theorem StartsFrom.subset {o : Options} {names startRules : List String}
    (h : o.StartsFrom names startRules) : ∀ r ∈ startRules, r ∈ names := by
  cases h with
  | first => exact fun r hr => List.mem_singleton.1 hr ▸ .head _
  | all => exact fun _ hr => hr
  | listed _ _ hrules => exact hrules

/-- What the options stand for does not change when other rules go away. -/
theorem StartsFrom.filter {o : Options} {names startRules : List String} {p : String → Bool}
    (h : o.StartsFrom names startRules) (hp : ∀ r ∈ startRules, p r) :
    o.StartsFrom (names.filter p) startRules := by
  cases h with
  | first hnone =>
      rw [List.filter_cons_of_pos (hp _ (.head _))]
      exact .first hnone
  | all hne hall =>
      rw [List.filter_eq_self.2 hp]
      exact .all hne hall
  | listed hne hall hrules =>
      exact .listed hne hall fun r hr => List.mem_filter.2 ⟨hrules r hr, hp r hr⟩

theorem resolveStartRules_eq_ok_iff {o : Options} {name : String} {names startRules : List String} :
    resolveStartRules (name :: names) name o.startRules = .ok startRules ↔
      o.StartsFrom (name :: names) startRules := by
  rw [resolveStartRules]
  by_cases hnone : o.startRules = []
  · rw [if_pos hnone, Except.ok.injEq]
    refine ⟨fun h => h ▸ .first hnone, fun h => ?_⟩
    cases h with
    | first => rfl
    | all _ hall => simp [hnone] at hall
    | listed hne => exact absurd hnone hne
  rw [if_neg hnone]
  by_cases hall : "*" ∈ o.startRules
  · rw [if_pos hall, Except.ok.injEq]
    refine ⟨fun h => h ▸ .all (List.cons_ne_nil _ _) hall, fun h => ?_⟩
    cases h with
    | first hfirst => exact absurd hfirst hnone
    | all => rfl
    | listed _ hnot => exact absurd hall hnot
  rw [if_neg hall]
  cases hfind : o.startRules.find? (· ∉ name :: names) with
  | some r =>
      refine ⟨fun h => (nomatch h), fun h => ?_⟩
      have hr : r ∉ name :: names := by simpa using List.find?_some hfind
      cases h with
      | first hfirst => exact absurd hfirst hnone
      | all _ hall' => exact absurd hall' hall
      | listed _ _ hrules => exact absurd (hrules r (List.mem_of_find?_eq_some hfind)) hr
  | none =>
      have hrules : ∀ r ∈ o.startRules, r ∈ name :: names := by
        simpa only [decide_eq_true_eq, not_not] using List.find?_eq_none.1 hfind
      rw [Except.ok.injEq]
      refine ⟨fun h => h ▸ .listed hnone hall hrules, fun h => ?_⟩
      cases h with
      | first hfirst => exact absurd hfirst hnone
      | all _ hall' => exact absurd hall' hall
      | listed => rfl

/-- When options resolve, and to what. -/
theorem resolve_eq_ok_iff {o o' : Options} {g : Grammar} :
    o.resolve g = .ok o' ↔
      ∃ startRules, o.StartsFrom g.ruleNames startRules ∧ o' = { o with startRules } := by
  rw [resolve]
  cases hnames : g.ruleNames with
  | nil =>
      refine ⟨fun h => (nomatch h), ?_⟩
      rintro ⟨startRules, h, -⟩
      cases h with
      | all hne => exact absurd rfl hne
      | listed hne _ hrules =>
          obtain ⟨r, hr⟩ := List.exists_mem_of_ne_nil _ hne
          exact nomatch hrules r hr
  | cons name names =>
      simp only [← resolveStartRules_eq_ok_iff]
      cases resolveStartRules (name :: names) name o.startRules with
      | error e => simp [Except.map]
      | ok startRules => simp [Except.map, eq_comm]

end Options

/-! ## The three stages -/

section Stages

variable (o : Options) {w : Work}

/-- What the passes of the check stage report. -/
theorem runWith_checkPasses (w : Work) :
    ∃ session, runWith o w (runPasses "check" 0 [reportDuplicates, reportUndefined] : Pass Id) =
        (.ok (), { w with session := session }) ∧
      session.stage = w.session.stage ∧
      session.diagnostics = w.session.diagnostics ++
        (w.grammar.duplicates.map (fun d => duplicateError d.1 d.2) ++
          w.grammar.undefinedRefs.map fun r => undefinedError r.1 r.2).map
            fun e => ⟨.error, w.session.stage, e.1, some e.2⟩ := by
  obtain ⟨s₁, hrun₁, hstage₁, hdiagnostics₁⟩ := runWith_reportErrors o
    { w with session := w.session.atPass "check" 0 }
    (w.grammar.duplicates.map fun d => duplicateError d.1 d.2)
  obtain ⟨s₂, hrun₂, hstage₂, hdiagnostics₂⟩ := runWith_reportErrors o
    { w with session := s₁.atPass "check" 1 }
    (w.grammar.undefinedRefs.map fun r => undefinedError r.1 r.2)
  refine ⟨s₂, ?_, ?_, ?_⟩
  · rw [runWith_runPasses_cons, reportDuplicates, runWith_bind, runWith_grammar, andThen]
    dsimp only
    rw [hrun₁, andThen, runWith_runPasses_cons, reportUndefined, runWith_bind, runWith_grammar,
      andThen]
    dsimp only
    rw [hrun₂]
    rfl
  · rw [hstage₂, Session.stage_atPass, hstage₁, Session.stage_atPass]
  · rw [hdiagnostics₂]
    simp [hdiagnostics₁, hstage₁]

/-- A well-formed grammar passes the check stage. -/
theorem runWith_checkStage_ok (hw : w.session.diagnostics = []) (h : w.grammar.WellFormed) :
    ∃ session, runWith o w (runStage "check" [reportDuplicates, reportUndefined] : Pass Id) =
      (.ok (), { w with session := session }) ∧ session.diagnostics = [] := by
  obtain ⟨hduplicates, hundefined⟩ := Grammar.wellFormed_iff.1 h
  obtain ⟨session, hrun, -, hdiagnostics⟩ := runWith_checkPasses o
    { w with session := w.session.opened "check" 2 }
  have hnone : session.diagnostics = [] := by simp [hdiagnostics, hduplicates, hundefined, hw]
  refine ⟨session, ?_, hnone⟩
  have hstage := runWith_runStage o w "check" [reportDuplicates, reportUndefined] hrun
  rw [hstage, Session.failure?_eq_none (by rw [Session.errors, hnone]; rfl)]

/-- Any other grammar fails it. -/
theorem runWith_checkStage_error (hw : w.session.diagnostics = []) (h : ¬ w.grammar.WellFormed) :
    ∃ diagnostics w', runWith o w (runStage "check" [reportDuplicates, reportUndefined] : Pass Id) =
      (.error (.stage ⟨"check", diagnostics⟩), w') := by
  obtain ⟨session, hrun, hstage, hdiagnostics⟩ := runWith_checkPasses o
    { w with session := w.session.opened "check" 2 }
  simp only [Session.stage_opened] at hstage hdiagnostics
  have hne : session.diagnostics ≠ [] := by
    intro hnil
    refine h (Grammar.wellFormed_iff.2 ?_)
    simpa [hnil, hw] using hdiagnostics
  have herrors : ∀ d ∈ session.diagnostics, d.severity = .error ∧ d.stage = session.stage := by
    intro d hd
    simp only [hdiagnostics, Session.diagnostics_opened, hw,
      List.nil_append, List.mem_map] at hd
    obtain ⟨e, -, rfl⟩ := hd
    exact ⟨rfl, hstage.symm⟩
  refine ⟨session.diagnostics, { w with session := session }, ?_⟩
  rw [runWith_runStage o w "check" [reportDuplicates, reportUndefined] hrun,
    Session.failure?_eq_some hne herrors]
  simp only [hstage]

/-- The pass that removes proxies reports no error. -/
theorem runWith_removeProxies (w : Work) :
    ∃ session, runWith o w (removeProxies : Pass Id) =
        (.ok (), ⟨w.grammar.withoutProxies o.startRules, session⟩) ∧
      session.errors = w.session.errors := by
  rw [removeProxies, runWith_bind, runWith_grammar, andThen, runWith_bind, runWith_read, andThen,
    runWith_bind, runWith_onSession, andThen]
  split
  · exact ⟨_, rfl, by simp [Session.errors]⟩
  · exact ⟨_, rfl, rfl⟩

/-- The pass that collects expectations changes the pool only. -/
theorem runWith_collectExpectations (w : Work) :
    ∃ session, runWith o w (collectExpectations : Pass Id) =
        (.ok (), ⟨{ w.grammar with pool := w.grammar.collectPool }, session⟩) ∧
      session.errors = w.session.errors :=
  ⟨_, rfl, rfl⟩

/-- The pass that generates code leaves the text of the module in the grammar. -/
theorem runWith_generateParser {w : Work} {p : Js.ParserModule}
    (h : Js.ParserModule.generate o w.grammar = .ok p) :
    ∃ session, runWith o w (generateParser : Pass Id) =
        (.ok (), ⟨{ w.grammar with code := some p.render }, session⟩) ∧
      session.errors = w.session.errors := by
  rw [generateParser, runWith_bind, runWith_grammar, andThen, runWith_bind, runWith_read, andThen,
    h]
  exact ⟨_, rfl, rfl⟩

/-- The transform stage succeeds. -/
theorem runWith_transformStage (hw : w.session.errors = []) :
    ∃ w', runWith o w (runStage "transform" [removeProxies] : Pass Id) = (.ok (), w') ∧
      w'.grammar = w.grammar.withoutProxies o.startRules ∧ w'.session.errors = [] := by
  obtain ⟨session, hpass, herrors⟩ := runWith_removeProxies o
    { w with session := (w.session.opened "transform" 1).atPass "transform" 0 }
  have hnone : session.errors = [] := herrors.trans hw
  have hrun : runWith o { w with session := w.session.opened "transform" 1 }
      (runPasses "transform" 0 [removeProxies] : Pass Id) =
        (.ok (), ⟨w.grammar.withoutProxies o.startRules, session⟩) := by
    rw [runWith_runPasses_cons]
    dsimp only
    rw [hpass]
    rfl
  have hstage := runWith_runStage o w "transform" [removeProxies] hrun
  rw [Session.failure?_eq_none hnone] at hstage
  exact ⟨_, hstage, rfl, hnone⟩

/-- The generate stage leaves the pool and the code of a module if there is a start rule. -/
theorem runWith_generateStage (hstart : o.startRules ≠ []) (hw : w.session.errors = []) :
    ∃ w' p, runWith o w
        (runStage "generate" [collectExpectations, generateParser] : Pass Id) = (.ok (), w') ∧
      Js.ParserModule.generate o { w.grammar with pool := w.grammar.collectPool } = .ok p ∧
      w'.grammar =
        { w.grammar with pool := w.grammar.collectPool, code := some p.render } := by
  obtain ⟨s₁, hcollect, herrors₁⟩ := runWith_collectExpectations o
    { w with session := (w.session.opened "generate" 2).atPass "generate" 0 }
  obtain ⟨p, hp⟩ := Js.exists_generate hstart w.grammar
  obtain ⟨s₂, hgenerate, herrors₂⟩ := runWith_generateParser o
    (w := ⟨{ w.grammar with pool := w.grammar.collectPool }, s₁.atPass "generate" 1⟩) hp
  have hnone : s₂.errors = [] := herrors₂.trans (herrors₁.trans hw)
  have hrun : runWith o { w with session := w.session.opened "generate" 2 }
      (runPasses "generate" 0 [collectExpectations, generateParser] : Pass Id) = (.ok (),
        ⟨{ w.grammar with pool := w.grammar.collectPool, code := some p.render }, s₂⟩) := by
    rw [runWith_runPasses_cons]
    dsimp only
    rw [hcollect, andThen, runWith_runPasses_cons]
    dsimp only
    rw [hgenerate]
    rfl
  have hstage := runWith_runStage o w "generate" [collectExpectations, generateParser] hrun
  rw [Session.failure?_eq_none hnone] at hstage
  exact ⟨_, p, hstage, hp, rfl⟩

end Stages

/-! ## The whole compilation -/

theorem entries_defaultStages : (Stages.ofSets (defaultStages (m := Id))).entries =
    [("check", [reportDuplicates, reportUndefined]), ("transform", [removeProxies]),
      ("generate", [collectExpectations, generateParser])] := rfl

/-- Options that do not resolve decide the outcome. -/
theorem generate_of_resolve_error {g : Grammar} {o : Options} {e : CompileError}
    (h : o.resolve g = .error e) : generate g o = .error e := by
  rw [generate, compileDefault, compile, h]
  rfl

/-- The work that the first stage finds. -/
def firstWork (g : Grammar) (o : Options) : Work :=
  ⟨{ g with code := none },
    Session.note .debug ("start rules: " ++ Text.joinWith ", " o.startRules) {}⟩

/-- What a compilation gives once its stages have ended. -/
def outcomeOf : Except CompileError Unit × Work → Except CompileError String
  | (.error e, _) => .error e
  | (.ok (), w) => w.grammar.output

/-- The stages decide the outcome. -/
theorem generate_of_resolve_ok {g : Grammar} {o o' : Options} (h : o.resolve g = .ok o') :
    generate g o = outcomeOf (runWith o' (firstWork g o')
      (runEach (Stages.ofSets defaultStages).entries : Pass Id)) := by
  have hstages : ∀ w : Work, runWith o' w (runStages (Stages.ofSets defaultStages) : Pass Id) =
      andThen o' (fun _ => do note .debug ("\n" ++ (← grammar).render))
        (runWith o' w (runEach (Stages.ofSets defaultStages).entries : Pass Id)) := by
    intro w
    rw [runStages, runWith_bind]
  rw [generate, compileDefault, compile, h]
  dsimp only
  rw [hstages, firstWork]
  cases runWith o' _ (runEach (Stages.ofSets defaultStages).entries : Pass Id) with
  | mk r w =>
      cases r with
      | error e => rfl
      | ok => rfl

/-- A grammar that is not well formed fails in the check stage. -/
theorem generate_of_not_wellFormed {g : Grammar} {o o' : Options} (h : o.resolve g = .ok o')
    (hg : ¬ g.WellFormed) :
    ∃ diagnostics, generate g o = .error (.stage ⟨"check", diagnostics⟩) := by
  obtain ⟨diagnostics, w, hcheck⟩ := runWith_checkStage_error o' (w := firstWork g o') rfl
    fun hw => hg ⟨hw.names_nodup, hw.refs_defined⟩
  refine ⟨diagnostics, ?_⟩
  rw [generate_of_resolve_ok h, entries_defaultStages, runEach, runWith_bind, hcheck]
  rfl

/-- What a compilation leaves once its stages have succeeded. -/
theorem compileDefault_of_run {g : Grammar} {o o' : Options} {w : Work} (h : o.resolve g = .ok o')
    (hrun : runWith o' (firstWork g o')
      (runEach (Stages.ofSets defaultStages).entries : Pass Id) = (.ok (), w)) :
    (compileDefault g o).result = w.grammar.output ∧
      (compileDefault g o).work.grammar = w.grammar := by
  have hstages : runWith o' (firstWork g o') (runStages (Stages.ofSets defaultStages) : Pass Id) =
      (.ok (), { w with session := w.session.note .debug ("\n" ++ w.grammar.render) }) := by
    rw [runStages, runWith_bind, hrun]
    rfl
  rw [firstWork] at hstages
  rw [compileDefault, compile, h]
  dsimp only
  rw [hstages]
  exact ⟨rfl, rfl⟩

/-- The grammar that a compilation leaves, with the pool of its rules and the code of a module. -/
def Grammar.finished (g : Grammar) (p : Js.ParserModule) : Grammar :=
  { g with pool := g.collectPool, code := some p.render }

/-- A well-formed grammar is compiled if there is a start rule. -/
theorem compileDefault_of_wellFormed {g : Grammar} {o o' : Options} (h : o.resolve g = .ok o')
    (hstart : o'.startRules ≠ []) (hg : g.WellFormed) :
    ∃ p, Js.ParserModule.generate o' { g.withoutProxies o'.startRules with
        pool := (g.withoutProxies o'.startRules).collectPool } = .ok p ∧
      (compileDefault g o).result = .ok p.render ∧
      (compileDefault g o).work.grammar = (g.withoutProxies o'.startRules).finished p := by
  obtain ⟨session, hcheck, hnone⟩ := runWith_checkStage_ok o' (w := firstWork g o') rfl
    ⟨hg.names_nodup, hg.refs_defined⟩
  obtain ⟨w₂, htransform, hgrammar₂, herrors⟩ := runWith_transformStage o'
    (w := { firstWork g o' with session := session }) (by rw [Session.errors, hnone]; rfl)
  obtain ⟨w₃, p, hgenerate, hp, hgrammar₃⟩ := runWith_generateStage o' hstart herrors
  have hrun : runWith o' (firstWork g o')
      (runEach (Stages.ofSets defaultStages).entries : Pass Id) = (.ok (), w₃) := by
    rw [entries_defaultStages, runEach, runWith_bind, hcheck, andThen, runEach, runWith_bind,
      htransform, andThen, runEach, runWith_bind, hgenerate]
    rfl
  obtain ⟨hresult, hwork⟩ := compileDefault_of_run h hrun
  rw [hgrammar₂] at hp hgrammar₃
  refine ⟨p, hp, ?_, ?_⟩
  · rw [hresult, hgrammar₃]
    rfl
  · rw [hwork, hgrammar₃]
    rfl

/-- How a compilation ends: without rules, with an unknown start rule, with a failed check, or with
code. -/
theorem generate_cases (g : Grammar) (o : Options) :
    (g.rules = [] ∧ generate g o = .error .emptyGrammar) ∨
    (g.rules ≠ [] ∧ ∃ name, o.FirstUnknown g name ∧
      generate g o = .error (.unknownStartRule name)) ∨
    (g.rules ≠ [] ∧ (¬ ∃ name, o.FirstUnknown g name) ∧ ¬ g.WellFormed ∧
      ∃ diagnostics, generate g o = .error (.stage ⟨"check", diagnostics⟩)) ∨
    (g.rules ≠ [] ∧ (¬ ∃ name, o.FirstUnknown g name) ∧ g.WellFormed ∧
      ∃ code, generate g o = .ok code) := by
  by_cases hrules : g.rules = []
  · exact .inl ⟨hrules, generate_of_resolve_error (Options.resolve_empty hrules)⟩
  refine .inr ?_
  by_cases hunknown : ∃ name, o.FirstUnknown g name
  · obtain ⟨name, hname⟩ := hunknown
    exact .inl ⟨hrules, name, hname,
      generate_of_resolve_error (Options.resolve_unknown hrules hname)⟩
  refine .inr ?_
  obtain ⟨o', ho', hstart⟩ := Options.resolve_known hrules hunknown
  by_cases hg : g.WellFormed
  · obtain ⟨p, -, hresult, -⟩ := compileDefault_of_wellFormed ho' hstart hg
    exact .inr ⟨hrules, hunknown, hg, p.render, hresult⟩
  · exact .inl ⟨hrules, hunknown, hg, generate_of_not_wellFormed ho' hg⟩

/-- A compilation that gives code was of a well-formed grammar, and it has left the grammar without
its proxies, with the module that was made of it. -/
theorem exists_of_compileDefault_ok {g : Grammar} {o : Options} {code : String}
    (h : (compileDefault g o).result = .ok code) :
    ∃ o' p, o.resolve g = .ok o' ∧ o'.startRules ≠ [] ∧ g.WellFormed ∧
      Js.ParserModule.generate o' { g.withoutProxies o'.startRules with
        pool := (g.withoutProxies o'.startRules).collectPool } = .ok p ∧
      code = p.render ∧
      (compileDefault g o).work.grammar = (g.withoutProxies o'.startRules).finished p := by
  have hout : generate g o = .ok code := h
  rcases generate_cases g o with ⟨-, herror⟩ | ⟨-, _, -, herror⟩ | ⟨-, -, -, _, herror⟩ |
    ⟨hrules, hunknown, hg, -⟩
  · rw [hout] at herror
    cases herror
  · rw [hout] at herror
    cases herror
  · rw [hout] at herror
    cases herror
  · obtain ⟨o', ho', hstart⟩ := Options.resolve_known hrules hunknown
    obtain ⟨p, hp, hresult, hwork⟩ := compileDefault_of_wellFormed ho' hstart hg
    rw [h] at hresult
    exact ⟨o', p, ho', hstart, hg, hp, Except.ok.inj hresult, hwork⟩

/-- At most one start rule is the first unknown one. -/
theorem Options.FirstUnknown.unique {g : Grammar} {o : Options} {name name' : String}
    (h : o.FirstUnknown g name) (h' : o.FirstUnknown g name') : name = name' :=
  Option.some.inj (((find?_eq_some_iff_firstUnknown h.not_all).2 h).symm.trans
    ((find?_eq_some_iff_firstUnknown h'.not_all).2 h'))

/-- The outcome of compiling a grammar, for every grammar and all options. -/
theorem generate_outcome (g : Grammar) (o : Options) :
    (generate g o = .error .emptyGrammar ↔ g.rules = []) ∧
    (∀ name, generate g o = .error (.unknownStartRule name) ↔
      g.rules ≠ [] ∧ o.FirstUnknown g name) ∧
    ((∃ diagnostics, generate g o = .error (.stage ⟨"check", diagnostics⟩)) ↔
      g.rules ≠ [] ∧ (¬ ∃ name, o.FirstUnknown g name) ∧ ¬ g.WellFormed) ∧
    ((∃ code, generate g o = .ok code) ↔
      g.rules ≠ [] ∧ (¬ ∃ name, o.FirstUnknown g name) ∧ g.WellFormed) ∧
    (∀ message, generate g o ≠ .error (.pass message)) ∧ generate g o ≠ .error .noOutput := by
  rcases generate_cases g o with ⟨hrules, hout⟩ | ⟨hrules, name, hname, hout⟩ |
    ⟨hrules, hunknown, hg, diagnostics, hout⟩ | ⟨hrules, hunknown, hg, code, hout⟩
  · simp [hout, hrules]
  · simp only [hout, Except.error.injEq, CompileError.unknownStartRule.injEq, reduceCtorEq,
      hrules, false_iff, not_false_eq_true, true_and, exists_false, not_and, ne_eq, implies_true,
      and_true]
    exact ⟨fun name' => ⟨fun heq => heq ▸ hname, fun h => hname.unique h⟩,
      fun h => absurd ⟨name, hname⟩ h, fun h => absurd ⟨name, hname⟩ h⟩
  · have hnone : ∀ name, ¬ o.FirstUnknown g name := fun name h => hunknown ⟨name, h⟩
    simp [hout, hrules, hnone, hg]
  · have hnone : ∀ name, ¬ o.FirstUnknown g name := fun name h => hunknown ⟨name, h⟩
    simp [hout, hrules, hnone, hg]

end PegGen
