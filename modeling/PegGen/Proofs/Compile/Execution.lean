import PegGen.Proofs.Compile.Stages

/-!
# Which passes a run invokes

Stages run one after the other, and so do the passes of a stage.  A run ends early in one of two
places: after a pass that fails, or at the end of a stage in which an error was reported.

A pass may do anything to the grammar and to a state of its own that it has captured, but to the
session it only reports (`Pass.OnlyReports`).  To see which passes are invoked, each of them is
replaced by one that also keeps a record of its invocations (`Pass.watched`).  The record changes
nothing else, and the passes in it are the ones that were run (`Recorded`).

`runStages_invocations` says what the record is, and what it has to do with the result of the run.
It rests on what happens to the passes of one stage (`exists_recorded_runPasses`), to a stage
(`exists_recorded_runStage`) and to one stage after the other (`exists_recorded_runEach`).
-/

namespace PegGen

open PassT

variable {σ α β : Type}

/-! ## Sessions that are only reported to -/

/-- A session and another that comes from it by reports and lines of the log. -/
inductive Session.ReportsTo (s : Session) : Session → Prop where
  | refl : ReportsTo s s
  | report : ReportsTo s s' → ReportsTo s (s'.report severity message location)
  | note : ReportsTo s s' → ReportsTo s (s'.note level message)

/-- Reports leave the stage as it is, and add diagnostics of this stage. -/
theorem Session.ReportsTo.diagnostics {s s' : Session} (h : s.ReportsTo s') :
    s'.stage = s.stage ∧ ∃ reported, s'.diagnostics = s.diagnostics ++ reported ∧
      ∀ d ∈ reported, d.stage = s.stage := by
  induction h with
  | refl => exact ⟨rfl, [], by simp, by simp⟩
  | @report s' severity message location _ ih =>
      obtain ⟨hstage, reported, hdiagnostics, hreported⟩ := ih
      refine ⟨hstage, reported ++ [⟨severity, s'.stage, message, location⟩], ?_, ?_⟩
      · rw [diagnostics_report, hdiagnostics, List.append_assoc]
      · intro d hd
        rcases List.mem_append.1 hd with hd | hd
        · exact hreported d hd
        · rw [List.mem_singleton.1 hd]
          exact hstage
  | note _ ih => exact ih

/-! ## Runs over a captured state -/

namespace PassT

/-- Run an action from a captured state. -/
def runFrom (options : Options) (w : Work) (captured : σ) (action : PassT (StateM σ) α) :
    (Except CompileError α × Work) × σ :=
  (runWith options w action).run captured

variable (options : Options) (w : Work) (captured : σ)

/-- How a run goes on with another action. -/
def thenFrom (f : α → PassT (StateM σ) β) :
    (Except CompileError α × Work) × σ → (Except CompileError β × Work) × σ
  | ((.ok a, w), captured) => runFrom options w captured (f a)
  | ((.error e, w), captured) => ((.error e, w), captured)

theorem runFrom_bind (x : PassT (StateM σ) α) (f : α → PassT (StateM σ) β) :
    runFrom options w captured (x >>= f) =
      thenFrom options f (runFrom options w captured x) := by
  rw [runFrom, runWith, ReaderT.run_bind, ExceptT.run_bind, StateT.run_bind, StateT.run_bind]
  show _ = thenFrom options f ((((ReaderT.run x options).run).run w).run captured)
  rcases (((ReaderT.run x options).run).run w).run captured with ⟨⟨e | a, w'⟩, captured'⟩
  · rfl
  · rfl

theorem runFrom_checkErrors :
    runFrom options w captured (checkErrors : Pass (StateM σ)) =
      match w.session.failure? with
      | some failure => ((.error (.stage failure), w), captured)
      | none => ((.ok (), w), captured) := by
  rw [checkErrors, runFrom_bind]
  show thenFrom options _ ((.ok w, w), captured) = _
  rw [thenFrom]
  cases w.session.failure? with
  | none => rfl
  | some failure => rfl

end PassT

/-! ## Watching passes -/

/-- One invocation of a pass. -/
structure Invocation (σ : Type) where
  /-- The pass. -/
  pass : Pass (StateM σ)
  /-- The stage in which it was invoked. -/
  stage : String
  /-- What it returned. -/
  result : Except CompileError Unit
  /-- What it reported. -/
  diagnostics : List Diagnostic

namespace Invocation

/-- The invocation of a pass. -/
def of (options : Options) (w : Work) (captured : σ) (pass : Pass (StateM σ)) : Invocation σ :=
  let run := runFrom options w captured pass
  ⟨pass, w.session.stage, run.1.1,
    run.1.2.session.diagnostics.drop w.session.diagnostics.length⟩

/-- The errors that the pass reported. -/
def errors (i : Invocation σ) : List Diagnostic :=
  i.diagnostics.filter (·.severity = .error)

/-- The pass with its stage. -/
def place (i : Invocation σ) : String × Pass (StateM σ) :=
  (i.stage, i.pass)

end Invocation

namespace Pass

/-- The pass does nothing to the session but report and log, whatever it does otherwise. -/
def OnlyReports (pass : Pass (StateM σ)) : Prop :=
  ∀ (options : Options) (w : Work) (captured : σ),
    w.session.ReportsTo (runFrom options w captured pass).1.2.session

/-- The pass, with a record of its invocations. -/
def watched (pass : Pass (StateM σ)) : Pass (StateM (σ × List (Invocation σ))) :=
  fun options => ExceptT.mk fun w => fun (captured, history) =>
    let run := runFrom options w captured pass
    (run.1, run.2, history ++ [.of options w captured pass])

end Pass

/-- The passes with a function applied to each. -/
def PassSet.map {m m' : Type → Type} (f : Pass m → Pass m') : PassSet m → PassSet m'
  | .sequence passes => .sequence (passes.map f)
  | .named passes => .named (passes.map f)

theorem PassSet.toList_map {m m' : Type → Type} (f : Pass m → Pass m') (passes : PassSet m) :
    (passes.map f).toList = passes.toList.map f := by
  cases passes with
  | sequence passes => rfl
  | named passes => exact passes.values_map f

/-- The passes of several stages in the order they run, each with its stage. -/
def passesInOrder {m : Type → Type} (stages : List (String × PassSet m)) :
    List (String × Pass m) :=
  stages.flatMap fun (stage, passes) => passes.toList.map (stage, ·)

/-- A run of an action, and the run of the same action with its passes watched.  The second has the
invocations on record and is otherwise the first. -/
structure Recorded (options : Options) (w : Work) (captured : σ) (x : PassT (StateM σ) α)
    (y : PassT (StateM (σ × List (Invocation σ))) α) (result : Except CompileError α) (w' : Work)
    (captured' : σ) (invocations : List (Invocation σ)) : Prop where
  run : runFrom options w captured x = ((result, w'), captured')
  watched : ∀ history, runFrom options w (captured, history) y =
    ((result, w'), captured', history ++ invocations)

namespace Recorded

variable {options : Options} {w w₁ w₂ : Work} {c c₁ c₂ : σ} {H₁ H₂ : List (Invocation σ)}
  {x : PassT (StateM σ) α} {y : PassT (StateM (σ × List (Invocation σ))) α}
  {f : α → PassT (StateM σ) β} {g : α → PassT (StateM (σ × List (Invocation σ))) β}

theorem bind {a : α} {result : Except CompileError β}
    (hxy : Recorded options w c x y (.ok a) w₁ c₁ H₁)
    (hfg : Recorded options w₁ c₁ (f a) (g a) result w₂ c₂ H₂) :
    Recorded options w c (x >>= f) (y >>= g) result w₂ c₂ (H₁ ++ H₂) where
  run := by rw [runFrom_bind, hxy.run, thenFrom, hfg.run]
  watched history := by
    rw [runFrom_bind, hxy.watched, thenFrom, hfg.watched, List.append_assoc]

theorem bind_error {e : CompileError} (hxy : Recorded options w c x y (.error e) w₁ c₁ H₁) :
    Recorded options w c (x >>= f) (y >>= g) (.error e) w₁ c₁ H₁ where
  run := by rw [runFrom_bind, hxy.run, thenFrom]
  watched history := by rw [runFrom_bind, hxy.watched, thenFrom]

/-- An action without passes leaves nothing on record. -/
theorem quiet {result : Except CompileError α} (hx : runFrom options w c x = ((result, w₁), c))
    (hy : ∀ history, runFrom options w (c, history) y = ((result, w₁), c, history)) :
    Recorded options w c x y result w₁ c [] :=
  ⟨hx, fun history => by rw [hy, List.append_nil]⟩

theorem pure (options : Options) (w : Work) (c : σ) (a : α) :
    Recorded options w c (pure a) (pure a) (.ok a) w c [] :=
  .quiet rfl fun _ => rfl

theorem note (options : Options) (w : Work) (c : σ) (level : LogLevel) (message : String) :
    Recorded options w c (PassT.note level message) (PassT.note level message) (.ok ())
      { w with session := w.session.note level message } c [] :=
  .quiet rfl fun _ => rfl

theorem onSession (options : Options) (w : Work) (c : σ) (f : Session → Session) :
    Recorded options w c (PassT.onSession f) (PassT.onSession f) (.ok ())
      { w with session := f w.session } c [] :=
  .quiet rfl fun _ => rfl

theorem checkErrors_ok {w : Work} (h : w.session.failure? = none) (options : Options) (c : σ) :
    Recorded options w c PassT.checkErrors PassT.checkErrors (.ok ()) w c [] :=
  .quiet (by rw [runFrom_checkErrors, h]) fun _ => by rw [runFrom_checkErrors, h]

theorem checkErrors_error {w : Work} {failure : StageFailure}
    (h : w.session.failure? = some failure) (options : Options) (c : σ) :
    Recorded options w c PassT.checkErrors PassT.checkErrors (.error (.stage failure)) w c [] :=
  .quiet (by rw [runFrom_checkErrors, h]) fun _ => by rw [runFrom_checkErrors, h]

end Recorded

/-! ## The passes of a stage -/

/-- What the invocations of a stage have to do with the session before and after them. -/
structure ReportedBy (s s' : Session) (invocations : List (Invocation σ)) : Prop where
  stage : s'.stage = s.stage
  diagnostics : s'.diagnostics = s.diagnostics ++ invocations.flatMap (·.diagnostics)
  invoked : ∀ i ∈ invocations, i.stage = s.stage
  reported : ∀ i ∈ invocations, ∀ d ∈ i.diagnostics, d.stage = s.stage

namespace ReportedBy

variable {s s₁ s₂ : Session} {H₁ H₂ : List (Invocation σ)}

theorem refl (s : Session) : ReportedBy s s ([] : List (Invocation σ)) :=
  ⟨rfl, by simp, by simp, by simp⟩

/-- Lines of the log are no diagnostics. -/
theorem note (s : Session) (level : LogLevel) (message : String) :
    ReportedBy s (s.note level message) ([] : List (Invocation σ)) :=
  ⟨rfl, by simp, by simp, by simp⟩

theorem append (h₁ : ReportedBy s s₁ H₁) (h₂ : ReportedBy s₁ s₂ H₂) :
    ReportedBy s s₂ (H₁ ++ H₂) where
  stage := h₂.stage.trans h₁.stage
  diagnostics := by
    rw [h₂.diagnostics, h₁.diagnostics, List.append_assoc, List.flatMap_append]
  invoked i hi := by
    rcases List.mem_append.1 hi with hi | hi
    · exact h₁.invoked i hi
    · exact (h₂.invoked i hi).trans h₁.stage
  reported i hi d hd := by
    rcases List.mem_append.1 hi with hi | hi
    · exact h₁.reported i hi d hd
    · exact (h₂.reported i hi d hd).trans h₁.stage

end ReportedBy

/-- The invocation of a pass is put on record, with what it reports. -/
theorem Pass.OnlyReports.exists_recorded {pass : Pass (StateM σ)} (hpass : pass.OnlyReports)
    (options : Options) (w : Work) (captured : σ) :
    ∃ w' captured' i, Recorded options w captured pass pass.watched i.result w' captured' [i] ∧
      i.pass = pass ∧ ReportedBy w.session w'.session [i] := by
  obtain ⟨hstage, reported, hdiagnostics, hreported⟩ := (hpass options w captured).diagnostics
  have hof : (Invocation.of options w captured pass).diagnostics = reported := by
    show List.drop _ (runFrom options w captured pass).1.2.session.diagnostics = reported
    rw [hdiagnostics, List.drop_left]
  refine ⟨(runFrom options w captured pass).1.2, (runFrom options w captured pass).2,
    .of options w captured pass, ⟨rfl, fun _ => rfl⟩, rfl, hstage, ?_, ?_, ?_⟩
  · rw [hdiagnostics, List.flatMap_singleton, hof]
  · intro i hi
    rw [List.mem_singleton.1 hi]
    rfl
  · intro i hi d hd
    rw [List.mem_singleton.1 hi, hof] at hd
    exact hreported d hd

/-- How passes that are run one after the other end: all of them succeed, or the last that is
invoked fails. -/
inductive PassesEnd (passes : List (Pass (StateM σ))) :
    Except CompileError Unit → List (Invocation σ) → Prop where
  | succeeded : H.map Invocation.pass = passes → (∀ i ∈ H, i.result = .ok ()) →
      PassesEnd passes (.ok ()) H
  | failed : (H ++ [i]).map Invocation.pass <+: passes → (∀ i ∈ H, i.result = .ok ()) →
      i.result = .error e → PassesEnd passes (.error e) (H ++ [i])

theorem PassesEnd.cons {passes : List (Pass (StateM σ))} {result : Except CompileError Unit}
    {H : List (Invocation σ)} {i : Invocation σ} (hi : i.result = .ok ())
    (h : PassesEnd passes result H) : PassesEnd (i.pass :: passes) result (i :: H) := by
  have hall : ∀ {H : List (Invocation σ)}, (∀ j ∈ H, j.result = .ok ()) →
      ∀ j ∈ i :: H, j.result = .ok () := by
    intro H hH j hj
    rcases List.mem_cons.1 hj with rfl | hj
    · exact hi
    · exact hH j hj
  cases h with
  | succeeded hpasses hH => exact .succeeded (by rw [List.map_cons, hpasses]) (hall hH)
  | @failed H j e hpasses hH hj =>
      exact .failed (H := i :: H) ((List.cons_prefix_cons.2 ⟨rfl, hpasses⟩)) (hall hH) hj

/-- The passes of a stage are invoked in order until one fails. -/
theorem exists_recorded_runPasses (options : Options) (stage : String) (n : Nat)
    {passes : List (Pass (StateM σ))} (hpasses : ∀ pass ∈ passes, pass.OnlyReports) (w : Work)
    (captured : σ) :
    ∃ result w' captured' H,
      Recorded options w captured (runPasses stage n passes)
        (runPasses stage n (passes.map Pass.watched)) result w' captured' H ∧
      PassesEnd passes result H ∧ ReportedBy w.session w'.session H := by
  induction passes generalizing n w captured with
  | nil => exact ⟨_, _, _, _, .pure options w captured (), .succeeded rfl (by simp), .refl _⟩
  | cons pass passes ih =>
      obtain ⟨w₁, captured₁, i, hpass, rfl, hreported⟩ := (hpasses pass (.head _)).exists_recorded
        options { w with session := w.session.atPass stage n } captured
      have hnote := Recorded.note options w captured .trace
        ("process pass " ++ stage ++ "." ++ toString n)
      have hnoted : ReportedBy w.session (w.session.atPass stage n) ([] : List (Invocation σ)) :=
        .note _ _ _
      rw [runPasses, List.map_cons, runPasses]
      cases hresult : i.result with
      | error e =>
          rw [hresult] at hpass
          exact ⟨_, _, _, _, hnote.bind hpass.bind_error,
            .failed (H := []) (List.prefix_append [i.pass] passes) (by simp) hresult,
            hnoted.append hreported⟩
      | ok =>
          rw [hresult] at hpass
          obtain ⟨result, w₂, captured₂, H, hrest, hend, hreported'⟩ :=
            ih (n + 1) (fun pass hpass => hpasses pass (.tail _ hpass)) w₁ captured₁
          exact ⟨_, _, _, _, hnote.bind (hpass.bind hrest), hend.cons hresult,
            hnoted.append (hreported.append hreported')⟩

/-! ## Stages -/

/-- How stages that are run one after the other end: all passes succeed and report no errors, or
all succeed up to the end of a stage that is the first to report some, or the last pass that is
invoked fails. -/
inductive StagesEnd (stages : List (String × PassSet (StateM σ))) :
    Except CompileError Unit → List (Invocation σ) → Prop where
  | succeeded : H.map Invocation.place = passesInOrder stages → (∀ i ∈ H, i.result = .ok ()) →
      H.flatMap Invocation.errors = [] → StagesEnd stages (.ok ()) H
  | reported (before after : List (String × PassSet (StateM σ))) (H H' : List (Invocation σ)) :
      stages = before ++ (stage, passes) :: after →
      H.map Invocation.place = passesInOrder before →
      H'.map Invocation.place = passesInOrder [(stage, passes)] →
      (∀ i ∈ H ++ H', i.result = .ok ()) → H.flatMap Invocation.errors = [] →
      H'.flatMap Invocation.errors ≠ [] →
      StagesEnd stages (.error (.stage ⟨stage, H'.flatMap Invocation.errors⟩)) (H ++ H')
  | failed : (H ++ [i]).map Invocation.place <+: passesInOrder stages →
      (∀ i ∈ H, i.result = .ok ()) → i.result = .error e → StagesEnd stages (.error e) (H ++ [i])

/-- The errors of the stage are those of its invocations, if there were none of its name before. -/
theorem ReportedBy.failure? {s s' : Session} {H : List (Invocation σ)} (h : ReportedBy s s' H)
    (hs : ∀ d ∈ s.diagnostics, d.stage ≠ s.stage) :
    s'.failure? = if H.flatMap Invocation.errors = [] then none
      else some ⟨s.stage, H.flatMap Invocation.errors⟩ := by
  have hbefore : (s.diagnostics.filter (·.severity = .error)).filter (·.stage = s.stage) = [] := by
    rw [List.filter_eq_nil_iff]
    intro d hd
    simpa using hs d (List.mem_filter.1 hd).1
  have hduring : ((H.flatMap (·.diagnostics)).filter (·.severity = .error)).filter
      (·.stage = s.stage) = H.flatMap Invocation.errors := by
    rw [List.filter_flatMap, List.filter_eq_self.2]
    · rfl
    · intro d hd
      obtain ⟨i, hi, hd⟩ := List.mem_flatMap.1 hd
      simpa using h.reported i hi d (List.mem_filter.1 hd).1
  rw [Session.failure?, Session.errors, h.stage, h.diagnostics, List.filter_append,
    List.filter_append, hbefore, hduring, List.nil_append]

theorem passesInOrder_append {m : Type → Type} (stages stages' : List (String × PassSet m)) :
    passesInOrder (stages ++ stages') = passesInOrder stages ++ passesInOrder stages' :=
  List.flatMap_append

theorem passesInOrder_cons {m : Type → Type} (stage : String × PassSet m)
    (stages : List (String × PassSet m)) :
    passesInOrder (stage :: stages) = passesInOrder [stage] ++ passesInOrder stages :=
  passesInOrder_append [stage] stages

/-- The places of invocations in one stage. -/
theorem ReportedBy.map_place {s s' : Session} {H : List (Invocation σ)} (h : ReportedBy s s' H) :
    H.map Invocation.place = (H.map Invocation.pass).map (s.stage, ·) := by
  rw [List.map_map]
  exact List.map_congr_left fun i hi => Prod.ext (h.invoked i hi) rfl

/-- A stage invokes its passes in order until one fails, and then looks for errors. -/
theorem exists_recorded_runStage (options : Options) (stage : String) {passes : PassSet (StateM σ)}
    (hpasses : ∀ pass ∈ passes.toList, pass.OnlyReports) {w : Work}
    (hw : ∀ d ∈ w.session.diagnostics, d.stage ≠ stage) (captured : σ) :
    ∃ result w' captured' H,
      Recorded options w captured (runStage stage passes.toList)
        (runStage stage (passes.toList.map Pass.watched)) result w' captured' H ∧
      StagesEnd [(stage, passes)] result H ∧ ReportedBy (w.session.enter stage) w'.session H := by
  obtain ⟨result, w', captured', H, hrun, hend, h⟩ := exists_recorded_runPasses options
    stage 0 hpasses { w with session := w.session.opened stage passes.toList.length } captured
  have hreported : ReportedBy (w.session.enter stage) w'.session H :=
    ⟨h.stage, h.diagnostics, h.invoked, h.reported⟩
  have hfailure := hreported.failure? hw
  have hplaces : passesInOrder [(stage, passes)] = passes.toList.map (stage, ·) := by
    simp [passesInOrder]
  have hnote := Recorded.note options w captured .debug
    ("process stage " ++ stage ++ " (" ++ toString passes.toList.length ++ " passes)")
  have henter := fun w => Recorded.onSession options w captured (·.enter stage)
  rw [runStage, runStage, List.length_map]
  cases hend with
  | succeeded hall hok =>
      have hplaces' : H.map Invocation.place = passesInOrder [(stage, passes)] := by
        rw [hplaces, hreported.map_place, hall]
        rfl
      by_cases herrors : H.flatMap Invocation.errors = []
      · rw [if_pos herrors] at hfailure
        have hcheck := hrun.bind (f := fun _ => checkErrors) (g := fun _ => checkErrors)
          (.checkErrors_ok hfailure options captured')
        rw [List.append_nil] at hcheck
        exact ⟨_, _, _, _, hnote.bind ((henter _).bind hcheck), .succeeded hplaces' hok herrors,
          hreported⟩
      · rw [if_neg herrors] at hfailure
        have hcheck := hrun.bind (f := fun _ => checkErrors) (g := fun _ => checkErrors)
          (.checkErrors_error hfailure options captured')
        rw [List.append_nil] at hcheck
        exact ⟨_, _, _, _, hnote.bind ((henter _).bind hcheck),
          .reported [] [] [] H rfl rfl hplaces' hok rfl herrors, hreported⟩
  | @failed H i e hprefix hok hi =>
      refine ⟨_, _, _, _, hnote.bind ((henter _).bind hrun.bind_error), .failed ?_ hok hi,
        hreported⟩
      rw [hplaces, hreported.map_place]
      exact hprefix.map _

namespace StagesEnd

variable {stage : String × PassSet (StateM σ)} {stages : List (String × PassSet (StateM σ))}
  {result : Except CompileError Unit} {H H' : List (Invocation σ)}

/-- A run that ends in a stage does so whatever stages come after it. -/
theorem cons_error {e : CompileError} (h : StagesEnd [stage] (.error e) H) :
    StagesEnd (stage :: stages) (.error e) H := by
  cases h with
  | reported before after H H' heq hbefore hstage hok hnone herrors =>
      exact .reported before (after ++ stages) H H'
        (by rw [← List.singleton_append, heq, List.append_assoc, List.cons_append])
        hbefore hstage hok hnone herrors
  | failed hprefix hok hi =>
      refine .failed ?_ hok hi
      rw [passesInOrder_cons stage]
      exact hprefix.trans (List.prefix_append ..)

/-- A stage that succeeds comes before whatever the others do. -/
theorem cons_ok (h : StagesEnd [stage] (.ok ()) H) (h' : StagesEnd stages result H') :
    StagesEnd (stage :: stages) result (H ++ H') := by
  cases h with
  | succeeded hplaces hok hnone =>
      have hall : ∀ {H' : List (Invocation σ)}, (∀ i ∈ H', i.result = .ok ()) →
          ∀ i ∈ H ++ H', i.result = .ok () := by
        intro H' hok' i hi
        rcases List.mem_append.1 hi with hi | hi
        · exact hok i hi
        · exact hok' i hi
      cases h' with
      | succeeded hplaces' hok' hnone' =>
          exact .succeeded (by rw [List.map_append, hplaces, hplaces', ← passesInOrder_cons])
            (hall hok') (by rw [List.flatMap_append, hnone, hnone', List.append_nil])
      | reported before after H₁ H₂ heq hbefore hstage hok' hnone' herrors =>
          rw [← List.append_assoc]
          exact .reported (stage :: before) after (H ++ H₁) H₂ (by rw [heq, List.cons_append])
            (by rw [List.map_append, hplaces, hbefore, ← passesInOrder_cons]) hstage
            (by rw [List.append_assoc]; exact hall hok')
            (by rw [List.flatMap_append, hnone, hnone', List.append_nil]) herrors
      | @failed H' i e hprefix hok' hi =>
          rw [← List.append_assoc]
          refine .failed ?_ (hall hok') hi
          rw [List.append_assoc, List.map_append, hplaces, passesInOrder_cons stage stages]
          exact (List.prefix_append_right_inj _).2 hprefix

/-- The invoked passes are the first ones. -/
theorem isPrefix (h : StagesEnd stages result H) :
    H.map Invocation.place <+: passesInOrder stages := by
  cases h with
  | succeeded hplaces => exact hplaces ▸ List.prefix_rfl
  | @reported stage passes before after H H' heq hbefore hstage =>
      rw [List.map_append, hbefore, hstage, heq, passesInOrder_append,
        passesInOrder_cons (stage, passes) after, ← List.append_assoc]
      exact List.prefix_append _ _
  | failed hprefix => exact hprefix

/-- A pass that fails is the last, and its error is the result. -/
theorem eq_append_of_error (h : StagesEnd stages result H) {i : Invocation σ} (hi : i ∈ H)
    {e : CompileError} (he : i.result = .error e) :
    result = .error e ∧ ∃ earlier, H = earlier ++ [i] ∧ ∀ j ∈ earlier, j.result = .ok () := by
  cases h with
  | succeeded _ hok =>
      rw [hok i hi] at he
      cases he
  | reported _ _ _ _ _ _ _ hok =>
      rw [hok i hi] at he
      cases he
  | @failed earlier last _ _ hok hlast =>
      rcases List.mem_append.1 hi with hi | hi
      · rw [hok i hi] at he
        cases he
      · obtain rfl := List.mem_singleton.1 hi
        rw [hlast] at he
        exact ⟨he ▸ rfl, earlier, rfl, hok⟩

/-- Without a failure, errors end the run after the first stage that has some. -/
theorem exists_stage_of_errors (h : StagesEnd stages result H)
    (hok : ∀ i ∈ H, i.result = .ok ()) (herrors : ∃ i ∈ H, i.errors ≠ []) :
    ∃ before stage passes after H₁ H₂, stages = before ++ (stage, passes) :: after ∧
      H = H₁ ++ H₂ ∧ H₁.map Invocation.place = passesInOrder before ∧
      H₂.map Invocation.place = passesInOrder [(stage, passes)] ∧
      (∀ i ∈ H₁, i.errors = []) ∧ (∃ i ∈ H₂, i.errors ≠ []) ∧
      result = .error (.stage ⟨stage, H₂.flatMap Invocation.errors⟩) := by
  cases h with
  | succeeded _ _ hnone =>
      obtain ⟨i, hi, hne⟩ := herrors
      exact absurd (List.flatMap_eq_nil_iff.1 hnone i hi) hne
  | @reported stage passes before after H₁ H₂ heq hbefore hstage _ hnone hsome =>
      refine ⟨before, stage, passes, after, H₁, H₂, heq, rfl, hbefore, hstage,
        List.flatMap_eq_nil_iff.1 hnone, ?_, rfl⟩
      simpa [List.flatMap_eq_nil_iff] using hsome
  | failed _ _ hlast =>
      rw [hok _ (List.mem_append_right _ (.head _))] at hlast
      cases hlast

/-- Without failures and errors all passes are invoked, and the run succeeds. -/
theorem eq_ok_of_no_errors (h : StagesEnd stages result H) (hok : ∀ i ∈ H, i.result = .ok ())
    (hnone : ∀ i ∈ H, i.errors = []) :
    H.map Invocation.place = passesInOrder stages ∧ result = .ok () := by
  cases h with
  | succeeded hplaces => exact ⟨hplaces, rfl⟩
  | reported _ _ _ _ _ _ _ _ _ hsome =>
      refine absurd (List.flatMap_eq_nil_iff.2 fun i hi => ?_) hsome
      exact hnone i (List.mem_append_right _ hi)
  | failed _ _ hlast =>
      rw [hok _ (List.mem_append_right _ (.head _))] at hlast
      cases hlast

end StagesEnd

/-- Stages are run one after the other until one ends the run. -/
theorem exists_recorded_runEach (options : Options) {stages : List (String × PassSet (StateM σ))}
    (hnodup : (stages.map Prod.fst).Nodup)
    (hpasses : ∀ stage ∈ stages, ∀ pass ∈ stage.2.toList, pass.OnlyReports) {w : Work}
    (hw : ∀ d ∈ w.session.diagnostics, d.stage ∉ stages.map Prod.fst) (captured : σ) :
    ∃ result w' captured' H,
      Recorded options w captured (runEach (stages.map fun e => (e.1, e.2.toList)))
        (runEach (stages.map fun e => (e.1, e.2.toList.map Pass.watched))) result w' captured' H ∧
      StagesEnd stages result H ∧
      w'.session.diagnostics = w.session.diagnostics ++ H.flatMap (·.diagnostics) ∧
      ∀ i ∈ H, ∀ d ∈ i.diagnostics, d.stage = i.stage := by
  induction stages generalizing w captured with
  | nil =>
      exact ⟨_, _, _, _, .pure options w captured (), .succeeded rfl (by simp) rfl, by simp,
        by simp⟩
  | cons stage stages ih =>
      obtain ⟨hnew, hnodup⟩ := List.nodup_cons.1 hnodup
      obtain ⟨result, w₁, captured₁, H, hrun, hend, hreported⟩ := exists_recorded_runStage options
        stage.1 (hpasses stage (.head _)) (fun d hd heq => hw d hd (heq ▸ .head _)) captured
      have hstage : ∀ i ∈ H, ∀ d ∈ i.diagnostics, d.stage = i.stage := fun i hi d hd =>
        (hreported.reported i hi d hd).trans (hreported.invoked i hi).symm
      rw [List.map_cons, List.map_cons, runEach, runEach]
      cases result with
      | error e =>
          exact ⟨_, _, _, _, hrun.bind_error, hend.cons_error, hreported.diagnostics, hstage⟩
      | ok =>
          have hw₁ : ∀ d ∈ w₁.session.diagnostics, d.stage ∉ stages.map Prod.fst := by
            intro d hd
            rw [hreported.diagnostics] at hd
            rcases List.mem_append.1 hd with hd | hd
            · exact fun h => hw d hd (.tail _ h)
            · obtain ⟨i, hi, hd⟩ := List.mem_flatMap.1 hd
              rw [hreported.reported i hi d hd]
              exact hnew
          obtain ⟨result, w₂, captured₂, H', hrest, hend', hdiagnostics, hstage'⟩ :=
            ih hnodup (fun stage hstage => hpasses stage (.tail _ hstage)) hw₁ captured₁
          refine ⟨_, _, _, _, hrun.bind hrest, hend.cons_ok hend', ?_, ?_⟩
          · rw [hdiagnostics, hreported.diagnostics, List.flatMap_append, List.append_assoc]
            rfl
          · intro i hi
            rcases List.mem_append.1 hi with hi | hi
            · exact hstage i hi
            · exact hstage' i hi

/-! ## The whole run -/

/-- The entries of stages whose passes were changed. -/
theorem entries_ofSets_map {m m' : Type → Type} (f : Pass m → Pass m')
    (sets : OrderedMap (PassSet m)) :
    (Stages.ofSets (sets.map (PassSet.map f))).entries =
      sets.entries.map fun e => (e.1, e.2.toList.map f) := by
  show (sets.entries.map _).map _ = _
  rw [List.map_map]
  exact List.map_congr_left fun e _ => Prod.ext rfl (e.2.toList_map f)

/-- At the end of all stages the grammar goes to the log. -/
theorem Recorded.runStages {options : Options} {w w' : Work} {c c' : σ}
    {sets : OrderedMap (PassSet (StateM σ))} {result : Except CompileError Unit}
    {H : List (Invocation σ)}
    (h : Recorded options w c (runEach (sets.entries.map fun e => (e.1, e.2.toList)))
      (runEach (sets.entries.map fun e => (e.1, e.2.toList.map Pass.watched))) result w' c' H) :
    ∃ w'', Recorded options w c (PegGen.runStages (.ofSets sets))
        (PegGen.runStages (.ofSets (sets.map (PassSet.map Pass.watched)))) result w'' c' H ∧
      w''.session.diagnostics = w'.session.diagnostics := by
  rw [PegGen.runStages, PegGen.runStages, entries_ofSets_map]
  cases result with
  | error e => exact ⟨w', h.bind_error, rfl⟩
  | ok =>
      have hall := h.bind (f := fun _ => do PassT.note .debug ("\n" ++ (← PassT.grammar).render))
        (g := fun _ => do PassT.note .debug ("\n" ++ (← PassT.grammar).render))
        (.quiet rfl fun _ => rfl)
      rw [List.append_nil] at hall
      exact ⟨_, hall, rfl⟩

/-- Run stages of passes that only report, from a session without diagnostics.  The run is the same
with a record of the invocations, and these are as follows.

* They are of the first passes of all stages, in order.
* If one fails, it is the last, and the run returns its error.
* Otherwise, if errors were reported, let `stage` be the first stage with some.  The run ends after
  all passes of `stage` and returns its errors under its name.
* Otherwise all passes were invoked, and the run succeeds.
* The diagnostics are those that were reported, each with the stage in which it was. -/
theorem runStages_invocations (sets : OrderedMap (PassSet (StateM σ)))
    (hpasses : ∀ stage ∈ sets.entries, ∀ pass ∈ stage.2.toList, pass.OnlyReports)
    (options : Options) (g : Grammar) (log : List LogRecord) (captured : σ) :
    ∃ result w captured' H,
      runFrom options ⟨g, { log := log }⟩ captured (runStages (.ofSets sets)) =
        ((result, w), captured') ∧
      runFrom options ⟨g, { log := log }⟩ (captured, [])
        (runStages (.ofSets (sets.map (PassSet.map Pass.watched)))) =
          ((result, w), captured', H) ∧
      H.map Invocation.place <+: passesInOrder sets.entries ∧
      (∀ i ∈ H, ∀ e, i.result = .error e → result = .error e ∧
        ∃ earlier, H = earlier ++ [i] ∧ ∀ j ∈ earlier, j.result = .ok ()) ∧
      ((∀ i ∈ H, i.result = .ok ()) → (∃ i ∈ H, i.errors ≠ []) →
        ∃ before stage passes after H₁ H₂, sets.entries = before ++ (stage, passes) :: after ∧
          H = H₁ ++ H₂ ∧ H₁.map Invocation.place = passesInOrder before ∧
          H₂.map Invocation.place = passesInOrder [(stage, passes)] ∧
          (∀ i ∈ H₁, i.errors = []) ∧ (∃ i ∈ H₂, i.errors ≠ []) ∧
          result = .error (.stage ⟨stage, H₂.flatMap Invocation.errors⟩)) ∧
      ((∀ i ∈ H, i.result = .ok ()) → (∀ i ∈ H, i.errors = []) →
        H.map Invocation.place = passesInOrder sets.entries ∧ result = .ok ()) ∧
      w.session.diagnostics = H.flatMap (·.diagnostics) ∧
      ∀ i ∈ H, ∀ d ∈ i.diagnostics, d.stage = i.stage := by
  have hfresh : ∀ d ∈ ({ log := log } : Session).diagnostics,
      d.stage ∉ sets.entries.map Prod.fst := by simp
  obtain ⟨result, w, captured', H, hrun, hend, hdiagnostics, hstage⟩ :=
    exists_recorded_runEach options sets.nodup hpasses (w := ⟨g, { log := log }⟩) hfresh captured
  obtain ⟨w', hrun', hdiagnostics'⟩ := hrun.runStages
  rw [hdiagnostics, List.nil_append] at hdiagnostics'
  refine ⟨result, w', captured', H, hrun'.run, hrun'.watched [], hend.isPrefix,
    fun i hi e => hend.eq_append_of_error hi, hend.exists_stage_of_errors,
    hend.eq_ok_of_no_errors, hdiagnostics', hstage⟩

/-- A pass that counts its invocations and reports. -/
def complaint (severity : Severity) (message : String) : Pass (StateM Nat) := do
  modifyThe Nat (· + 1)
  report severity message none

theorem complaint_onlyReports (severity : Severity) (message : String) :
    (complaint severity message).OnlyReports :=
  fun _ _ _ => .report .refl

/-- A stage that reports a warning and an error, and a stage that is not reached. -/
def complaints : OrderedMap (PassSet (StateM Nat)) :=
  .ofList
    [("check", .named (.ofList
        [("style", complaint .warning "long name"), ("names", complaint .error "no such rule")])),
     ("later", .sequence [complaint .error "never reported"])]

theorem runStages_invocations_complaints :
    (∀ stage ∈ complaints.entries, ∀ pass ∈ stage.2.toList, pass.OnlyReports) ∧
    ∃ w H, runFrom {} {} (0, []) (runStages (.ofSets (complaints.map (.map Pass.watched)))) =
        ((.error (.stage ⟨"check", [⟨.error, "check", "no such rule", none⟩]⟩), w), 2, H) ∧
      H.map Invocation.place <+: passesInOrder complaints.entries ∧
      w.session.diagnostics = H.flatMap (·.diagnostics) := by
  have honly : ∀ stage ∈ complaints.entries, ∀ pass ∈ stage.2.toList, pass.OnlyReports := by
    intro stage hstage pass hpass
    have hplace : (stage.1, pass) ∈ passesInOrder complaints.entries :=
      List.mem_flatMap.2 ⟨stage, hstage, List.mem_map_of_mem hpass⟩
    have hplaces : passesInOrder complaints.entries =
        [("check", complaint .warning "long name"), ("check", complaint .error "no such rule"),
          ("later", complaint .error "never reported")] := rfl
    simp only [hplaces, List.mem_cons, Prod.mk.injEq, List.not_mem_nil, or_false] at hplace
    rcases hplace with ⟨-, rfl⟩ | ⟨-, rfl⟩ | ⟨-, rfl⟩
    · exact complaint_onlyReports _ _
    · exact complaint_onlyReports _ _
    · exact complaint_onlyReports _ _
  refine ⟨honly, ?_⟩
  obtain ⟨result, w, captured, H, hrun, hwatched, hprefix, -, -, -, hdiagnostics, -⟩ :=
    runStages_invocations complaints honly {} {} [] 0
  have hresult : (runFrom {} {} 0 (runStages (.ofSets complaints))).1.1 =
      .error (.stage ⟨"check", [⟨.error, "check", "no such rule", none⟩]⟩) := rfl
  have hcaptured : (runFrom {} {} 0 (runStages (.ofSets complaints))).2 = 2 := rfl
  rw [hrun] at hresult hcaptured
  subst hresult hcaptured
  exact ⟨w, H, hwatched, hprefix, hdiagnostics⟩

end PegGen
