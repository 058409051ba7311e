import PegGen.Compile.Pipeline

/-!
# Runs of stages

What the run of a stage comes to, in terms of the runs of its passes.  Running a stage enters it,
runs its passes one after the other, and fails at its end if the session has errors of the stage
(`runWith_runStage`).  Log lines are written on the way, and nothing depends on them.

A session in which no error was reported has no failure (`Session.failure?_eq_none`).
-/

namespace PegGen

namespace Session

@[simp] theorem stage_note (level : LogLevel) (message : String) (s : Session) :
    (s.note level message).stage = s.stage := rfl

@[simp] theorem diagnostics_note (level : LogLevel) (message : String) (s : Session) :
    (s.note level message).diagnostics = s.diagnostics := rfl

@[simp] theorem stage_report (severity : Severity) (message : String)
    (location : Option Location) (s : Session) :
    (s.report severity message location).stage = s.stage := rfl

@[simp] theorem diagnostics_report (severity : Severity) (message : String)
    (location : Option Location) (s : Session) :
    (s.report severity message location).diagnostics =
      s.diagnostics ++ [⟨severity, s.stage, message, location⟩] := rfl

/-- The session as the first pass of a stage finds it. -/
def opened (stage : String) (passes : Nat) (s : Session) : Session :=
  (s.note .debug ("process stage " ++ stage ++ " (" ++ toString passes ++ " passes)")).enter stage

/-- The session as a pass of a stage finds it. -/
def atPass (stage : String) (n : Nat) (s : Session) : Session :=
  s.note .trace ("process pass " ++ stage ++ "." ++ toString n)

@[simp] theorem stage_opened (stage : String) (passes : Nat) (s : Session) :
    (s.opened stage passes).stage = stage := rfl

@[simp] theorem diagnostics_opened (stage : String) (passes : Nat) (s : Session) :
    (s.opened stage passes).diagnostics = s.diagnostics := rfl

@[simp] theorem stage_atPass (stage : String) (n : Nat) (s : Session) :
    (s.atPass stage n).stage = s.stage := rfl

@[simp] theorem diagnostics_atPass (stage : String) (n : Nat) (s : Session) :
    (s.atPass stage n).diagnostics = s.diagnostics := rfl

/-- Without errors no stage has failed. -/
theorem failure?_eq_none {s : Session} (h : s.errors = []) : s.failure? = none := by
  rw [failure?, h]
  rfl

/-- If all diagnostics are errors of the current stage, they are its failure. -/
theorem failure?_eq_some {s : Session} (hne : s.diagnostics ≠ [])
    (h : ∀ d ∈ s.diagnostics, d.severity = .error ∧ d.stage = s.stage) :
    s.failure? = some ⟨s.stage, s.diagnostics⟩ := by
  have herrors : s.errors = s.diagnostics :=
    List.filter_eq_self.2 fun d hd => by simpa using (h d hd).1
  have hstage : s.diagnostics.filter (·.stage = s.stage) = s.diagnostics :=
    List.filter_eq_self.2 fun d hd => by simpa using (h d hd).2
  rw [failure?, herrors, hstage, if_neg hne]

end Session

open PassT

variable (options : Options) (w : Work)

@[simp] theorem runWith_note (level : LogLevel) (message : String) :
    runWith options w (note level message : Pass Id) =
      (.ok (), { w with session := w.session.note level message }) := rfl

@[simp] theorem runWith_report (severity : Severity) (message : String)
    (location : Option Location) :
    runWith options w (report severity message location : Pass Id) =
      (.ok (), { w with session := w.session.report severity message location }) := rfl

@[simp] theorem runWith_runPasses_nil (stage : String) (n : Nat) :
    runWith options w (runPasses stage n [] : Pass Id) = (.ok (), w) := rfl

/-- The passes of a stage run one after the other. -/
theorem runWith_runPasses_cons (stage : String) (n : Nat) (pass : Pass Id)
    (passes : List (Pass Id)) :
    runWith options w (runPasses stage n (pass :: passes)) =
      andThen options (fun _ => runPasses stage (n + 1) passes)
        (runWith options { w with session := w.session.atPass stage n } pass) := by
  rw [runPasses, runWith_bind, runWith_note, andThen, runWith_bind]
  rfl

/-- A stage whose passes all succeed fails by the errors that the session then has. -/
theorem runWith_runStage (stage : String) (passes : List (Pass Id)) {w' : Work}
    (h : runWith options { w with session := w.session.opened stage passes.length }
      (runPasses stage 0 passes) = (.ok (), w')) :
    runWith options w (runStage stage passes) =
      match w'.session.failure? with
      | some failure => (.error (.stage failure), w')
      | none => (.ok (), w') := by
  rw [Session.opened] at h
  rw [runStage, runWith_bind, runWith_note, andThen, runWith_bind, runWith_onSession, andThen,
    runWith_bind, h, andThen]
  exact runWith_checkErrors options w'

/-- Errors are reported in order, all in the current stage. -/
theorem runWith_reportErrors (es : List (String × Location)) :
    ∃ session, runWith options w (reportErrors es : Pass Id) =
        (.ok (), { w with session := session }) ∧
      session.stage = w.session.stage ∧
      session.diagnostics = w.session.diagnostics ++
        es.map fun e => ⟨.error, w.session.stage, e.1, some e.2⟩ := by
  induction es generalizing w with
  | nil => exact ⟨w.session, rfl, rfl, by simp⟩
  | cons e es ih =>
      obtain ⟨message, location⟩ := e
      obtain ⟨session, hrun, hstage, hdiagnostics⟩ :=
        ih { w with session := w.session.report .error message (some location) }
      refine ⟨session, ?_, hstage, ?_⟩
      · rw [reportErrors, runWith_bind, runWith_report, andThen, hrun]
      · rw [hdiagnostics]
        simp

end PegGen
