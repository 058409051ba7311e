import PegGen.Proofs.Grammar.References
import PegGen.Proofs.Js.Spelling

/-!
# The structure of generated code

The code of a rule is emitted as a flat list of operations.  Blocks are opened behind the items of a
sequence and in front of the alternatives of a choice, and closed by other loops at the end, and the
block of a leaf is closed by the code that reports its failure.  Nothing says there that they match.

`expressionCode` computes a tree of statements in their place, with the rest of a sequence inside
the branch of an item.  Its code is what is emitted (`expressionOps_eq`), so what is emitted is read
as that tree (`RuleFunction.read?_ops`).
-/

namespace PegGen.Js

open Code (Op)

/-! ## Trees of statements -/

/-- Report a failure unless failures are silenced. -/
def reportFailure (constant : Nat) : Stmt :=
  .branch .unsilenced [.fail constant] []

/-- Match a leaf: take what it matches, or fail with its expectation. -/
def leafCode (target constant : Nat) (test : Test) (value : Expr) (move : Stmt) : List Stmt :=
  [.branch test
    [.assign (.register target) value, move]
    [.assign (.register target) .failure, reportFailure constant]]

/-- Go back to a saved position and fail. -/
def giveUp (target saved : Nat) : List Stmt :=
  [.assign .position (.register saved), .assign (.register target) .failure]

mutual

/-- The statements of an expression with a target register. -/
def expressionCode (pool : OrderedSet Expectation) (target : Nat) : Expression → GenM (List Stmt)
  | .literal value ignoreCase => do
      let constant ← constantOf pool (.literal value ignoreCase)
      let units := (Text.units value.toList).length
      let (test, matched) :=
        if ignoreCase then
          (Test.lowerSliceIs units (stringEscape (String.ofList (Text.lower value.toList))),
            Expr.slice units)
        else (Test.sliceIs units (stringEscape value), Expr.quoted (stringEscape value))
      return leafCode target constant test matched (.assign .position (.positionPlus units))
  | .charClass k => do
      let constant ← constantOf pool (.charClass k)
      return leafCode target constant (.charIn constant) .char .advance
  | .any => do
      let constant ← constantOf pool .any
      return leafCode target constant .inputLeft .char .advance
  | .ref name _ => return [.assign (.register target) (.invoke name)]
  | .seq [] => return [.assign (.register target) (.array [])]
  | .seq (e :: es) => do
      let saved ← freshRegister
      let code ← itemsCode pool target saved [] (e :: es)
      return .assign (.register saved) .position :: code
  | .choice [] => return [.assign (.register target) .failure]
  | .choice (e :: es) => do
      let code ← expressionCode pool target e
      let rest ← alternativesCode pool target es
      return code ++ rest
  | .named name body => do
      let code ← expressionCode pool target body
      let constant ← constantOf pool (.other name)
      return .silence :: (code ++ [.unsilence,
        .branch (.failed target) [reportFailure constant] []])

/-- The statements of the items of a sequence after those with results in the registers `done`. -/
def itemsCode (pool : OrderedSet Expectation) (target saved : Nat) (done : List Nat) :
    List Expression → GenM (List Stmt)
  | [] => return [.assign (.register target) (.array done)]
  | e :: es => do
      let result ← freshRegister
      let code ← expressionCode pool result e
      let rest ← itemsCode pool target saved (done ++ [result]) es
      return code ++ [.branch (.succeeded result) rest (giveUp target saved)]

/-- The statements of the alternatives of a choice after the first. -/
def alternativesCode (pool : OrderedSet Expectation) (target : Nat) :
    List Expression → GenM (List Stmt)
  | [] => return []
  | e :: es => do
      let code ← expressionCode pool target e
      let rest ← alternativesCode pool target es
      return [.branch (.failed target) (code ++ rest) []]

end

/-! ## Flat code is the code of a tree -/

section Flat

variable {pool : OrderedSet Expectation} {target : Nat}

theorem failOps_eq (pool : OrderedSet Expectation) (e : Expectation) :
    failOps pool e = (do
      let constant ← constantOf pool e
      return (reportFailure constant).ops) := rfl

/-- The code of a leaf, which is closed where its failure is reported. -/
theorem leafOps_eq (pool : OrderedSet Expectation) (target : Nat) (e : Expectation) (test : Test)
    (value : Expr) {move : Stmt} {line : String} (hmove : move.ops = [.line line]) :
    (do
      let rest ← orFailOps pool target e
      return .opening (ifHead test.render) ::
        .line ((registerName target).set value.render) :: .line line :: rest) =
    Stmt.opsAll <$> (do
      let constant ← constantOf pool e
      return leafCode target constant test value move : GenM (List Stmt)) := by
  have hcode : ∀ constant, Stmt.opsAll (leafCode target constant test value move) =
      .opening (ifHead test.render) :: .line ((registerName target).set value.render) ::
        .line line :: .otherwise :: .line ((registerName target).set failureName.text) ::
          ((reportFailure constant).ops ++ [.close]) := by
    intro constant
    simp [leafCode, Stmt.ops, hmove, Target.fragment, Expr.render]
  simp only [orFailOps, failOps_eq, bind_assoc, pure_bind, map_bind, map_pure, hcode]

/-- A constant that is looked up twice is the same both times. -/
theorem constantOf_bind_constantOf {α : Type} (pool : OrderedSet Expectation) (e : Expectation)
    (f : Nat → Nat → GenM α) :
    (do
      let n ← (constantOf pool e : GenM Nat)
      let m ← (constantOf pool e : GenM Nat)
      f n m) = (do
      let n ← (constantOf pool e : GenM Nat)
      f n n) := by
  rw [constantOf]
  cases pool.indexOf? e with
  | none => rfl
  | some n => rfl

theorem giveUpOps_eq (target saved : Nat) (test : Test) (yes : List Stmt) :
    (Stmt.branch test yes (giveUp target saved)).ops =
      .opening (ifHead test.render) :: (Stmt.opsAll yes ++ giveUpOps target saved) := by
  simp [giveUp, giveUpOps, Stmt.ops, Target.fragment, Expr.render]

/-- The blocks of the items are closed from the inside, each with the same code. -/
theorem giveUpOps_append_flatMap (target saved : Nat) (es : List Expression) :
    giveUpOps target saved ++ (es.flatMap fun _ => giveUpOps target saved) =
      (es.flatMap fun _ => giveUpOps target saved) ++ giveUpOps target saved := by
  induction es with
  | nil => simp
  | cons e es ih => rw [List.flatMap_cons, ih, ← List.append_assoc, ih]

theorem itemsOps_eq {es : List Expression}
    (h : ∀ e ∈ es, ∀ target,
      expressionOps pool target e = Stmt.opsAll <$> expressionCode pool target e)
    (target saved : Nat) (done : List Nat) :
    (do
      let (opened, results) ← itemsOps pool es
      return opened ++ .line ((registerName target).set
        (arrayLiteral ((done.map fun n => (registerName n).text) ++ results))) ::
          es.flatMap fun _ => giveUpOps target saved) =
    Stmt.opsAll <$> itemsCode pool target saved done es := by
  induction es generalizing done with
  | nil =>
      rw [itemsOps, itemsCode, pure_bind, map_pure]
      simp [Stmt.ops, Target.fragment, Expr.render]
  | cons e es ih =>
      rw [itemsOps, itemsCode, bind_assoc, map_bind]
      refine bind_congr fun n => ?_
      rw [h e (.head _), bind_assoc, bind_map_left, map_bind]
      refine bind_congr fun code => ?_
      have hitem : ∀ rest,
          Stmt.opsAll (code ++ [.branch (.succeeded n) rest (giveUp target saved)]) =
            Stmt.opsAll code ++ .opening (ifHead (Test.succeeded n).render) ::
              (Stmt.opsAll rest ++ giveUpOps target saved) := by
        intro rest
        rw [Stmt.opsAll_append, Stmt.opsAll_cons, Stmt.opsAll_nil, List.append_nil, giveUpOps_eq]
      calc _ = (fun rest => Stmt.opsAll code ++ .opening (ifHead (Test.succeeded n).render) ::
                  (rest ++ giveUpOps target saved)) <$>
                Stmt.opsAll <$> itemsCode pool target saved (done ++ [n]) es := by
              rw [← ih (fun e he => h e (.tail _ he)) (done ++ [n])]
              simp [giveUpOps_append_flatMap, Test.render]
        _ = _ := by simp [hitem]

/-- The blocks of the alternatives are closed together. -/
theorem alternativesOps_eq {es : List Expression}
    (h : ∀ e ∈ es, ∀ target,
      expressionOps pool target e = Stmt.opsAll <$> expressionCode pool target e)
    (target : Nat) :
    (do
      let rest ← alternativesOps pool target es
      return rest ++ es.map fun _ => Op.close) =
    Stmt.opsAll <$> alternativesCode pool target es := by
  induction es with
  | nil =>
      rw [alternativesOps, alternativesCode, pure_bind, map_pure]
      rfl
  | cons e es ih =>
      rw [alternativesOps, alternativesCode, bind_assoc, h e (.head _), bind_map_left, map_bind]
      refine bind_congr fun code => ?_
      have hclose : List.replicate es.length Op.close ++ [.close] =
          .close :: List.replicate es.length Op.close := by
        rw [← List.replicate_succ, List.replicate_succ']
      calc _ = (fun rest => .opening (ifHead (Test.failed target).render) ::
                  (Stmt.opsAll code ++ rest ++ [.close])) <$>
                Stmt.opsAll <$> alternativesCode pool target es := by
              rw [← ih fun e he => h e (.tail _ he)]
              simp [Test.render, hclose]
        _ = _ := by simp [Stmt.ops]

/-- The code that is emitted for an expression is that of its tree. -/
theorem expressionOps_eq (pool : OrderedSet Expectation) (target : Nat) (e : Expression) :
    expressionOps pool target e = Stmt.opsAll <$> expressionCode pool target e := by
  induction e using Expression.induct generalizing target with
  | literal value ignoreCase =>
      cases ignoreCase with
      | false =>
          rw [expressionOps, expressionCode]
          exact leafOps_eq pool target _ (.sliceIs _ (stringEscape value))
            (.quoted (stringEscape value)) rfl
      | true =>
          rw [expressionOps, expressionCode]
          exact leafOps_eq pool target _ (.lowerSliceIs _ _) (.slice _) rfl
  | charClass k =>
      have hleaf := fun constant => leafOps_eq pool target (.charClass k) (.charIn constant) .char
        (rfl : Stmt.advance.ops = [.line positionName.inc.stmt])
      rw [expressionOps, expressionCode]
      calc _ = (do
              let constant ← (constantOf pool (.charClass k) : GenM Nat)
              let constant' ← (constantOf pool (.charClass k) : GenM Nat)
              return Stmt.opsAll (leafCode target constant' (.charIn constant) .char .advance)) :=
            bind_congr fun constant => (hleaf constant).trans (by rw [map_bind]; rfl)
        _ = _ := by
            rw [constantOf_bind_constantOf, map_bind]
            rfl
  | any =>
      rw [expressionOps, expressionCode]
      exact leafOps_eq pool target _ .inputLeft .char rfl
  | ref name location => rfl
  | seq items ih =>
      cases items with
      | nil => rfl
      | cons e es =>
          rw [expressionOps, expressionCode, map_bind]
          refine bind_congr fun saved => ?_
          calc _ = (fun rest => .line ((registerName saved).set positionName.text) :: rest) <$>
                    Stmt.opsAll <$> itemsCode pool target saved [] (e :: es) := by
                  rw [← itemsOps_eq ih target saved []]
                  simp
            _ = _ := by simp [Stmt.ops, Target.fragment, Expr.render]
  | choice items ih =>
      cases items with
      | nil => rfl
      | cons e es =>
          rw [expressionOps, expressionCode, ih e (.head _), bind_map_left, map_bind]
          refine bind_congr fun first => ?_
          calc _ = (fun rest => Stmt.opsAll first ++ rest) <$>
                    Stmt.opsAll <$> alternativesCode pool target es := by
                  rw [← alternativesOps_eq (fun e he => ih e (.tail _ he)) target]
                  simp
            _ = _ := by simp
  | named name body ih =>
      rw [expressionOps, expressionCode, ih, bind_map_left, map_bind]
      refine bind_congr fun code => ?_
      simp [failOps_eq, Stmt.ops, Test.render]

theorem run_expressionOps_iff {e : Expression} {n n' : Nat} {ops : List Op} :
    (expressionOps pool target e).run n = .ok (ops, n') ↔
      ∃ code, (expressionCode pool target e).run n = .ok (code, n') ∧
        ops = Stmt.opsAll code := by
  rw [expressionOps_eq, StateT.run_map]
  cases (expressionCode pool target e).run n with
  | error err => exact ⟨nofun, fun ⟨_, h, _⟩ => nomatch h⟩
  | ok result =>
      constructor
      · rintro ⟨⟩
        exact ⟨_, rfl, rfl⟩
      · rintro ⟨code, ⟨⟩, rfl⟩
        rfl

end Flat

/-! ## Routines -/

/-- What a traced function does before its rule. -/
def traceEnterCode (rule : String) : List Stmt :=
  [.start, .branch .tracing [.trace .enter (stringEscape rule)] [], .blank]

/-- What a traced function does after its rule. -/
def traceLeaveCode (rule : String) : List Stmt :=
  [.blank, .branch .tracing [.branch (.succeeded 0) [.trace .matched (stringEscape rule)]
    [.trace .failed (stringEscape rule)]] []]

/-- The function of a rule, where `code` computes its result into the first register. -/
def routineOf (trace : Bool) (rule : String) (registers : Nat) (code : List Stmt) : Routine where
  rule := rule
  declared := List.range registers
  body := (if trace then traceEnterCode rule else []) ++ code ++
    (if trace then traceLeaveCode rule else [])
  result := 0

namespace RuleFunction

/-- Pieces in front of a text are one piece. -/
theorem foldr_append (pieces : List String) (s : String) :
    pieces.foldr (· ++ ·) s = pieces.foldr (· ++ ·) "" ++ s := by
  induction pieces with
  | nil => simp
  | cons piece pieces ih => rw [List.foldr_cons, ih, List.foldr_cons, String.append_assoc]

/-- The pieces from which a call of the tracer is put together. -/
theorem traceLine_of_pieces (kind : EventKind) (literal : String) :
    "peg$tracer" ++ (".trace" ++ ("(" ++ ("\x7b " ++ ("type: " ++ ("\"" ++ (kind.tag ++
      ("\"" ++ (", " ++ ("rule: " ++ ("\"" ++ (literal ++
        ("\", " ++ Stmt.traceDetails kind ++ " \x7d);")))))))))))) =
    Stmt.traceLine kind literal := by
  have hfront (s : String) : "peg$tracer" ++ (".trace" ++ ("(" ++ ("\x7b " ++ ("type: " ++
      ("\"" ++ s))))) = "peg$tracer.trace(\x7b type: \"" ++ s :=
    (foldr_append ["peg$tracer", ".trace", "(", "\x7b ", "type: ", "\""] s).trans
      (congrArg (· ++ s) (by decide))
  have hbetween (s : String) :
      "\"" ++ (", " ++ ("rule: " ++ ("\"" ++ s))) = "\", rule: \"" ++ s :=
    (foldr_append ["\"", ", ", "rule: ", "\""] s).trans (congrArg (· ++ s) (by decide))
  exact (hfront _).trans
    (congrArg _ ((congrArg _ (hbetween _)).trans String.append_assoc.symm))

theorem stringEscape_tag (kind : EventKind) : stringEscape kind.tag = kind.tag := by
  cases kind <;> decide

/-- Nothing is consumed when a rule begins or fails. -/
theorem traceCall_atStart {kind : EventKind} (hkind : kind ≠ .matched) (rule : String) :
    traceCall kind rule startName startName none = Stmt.traceLine kind (stringEscape rule) := by
  have hdetails : "\"" ++ (", " ++ ("location: " ++ ("peg$computeLocation" ++ ("(" ++
      ("startPos" ++ (", " ++ ("startPos" ++ (")" ++ (" \x7d" ++ (")" ++ ";")))))))))) =
      "\", " ++ Stmt.traceDetails kind ++ " \x7d);" := by
    cases kind with
    | enter => decide
    | matched => exact absurd rfl hkind
    | failed => decide
  rw [← traceLine_of_pieces, ← hdetails]
  simp only [traceCall, stringLiteral, stringEscape_tag, objectLiteral, startName, tracerName,
    Fragment.call, Fragment.stmt, Text.joinWith_cons_cons, Text.joinWith_singleton,
    Option.map_none, Option.toList_none, List.append_nil, List.cons_append, List.nil_append,
    String.append_assoc]

theorem traceCall_matched (rule : String) :
    traceCall .matched rule startName positionName (some (registerName 0)) =
      Stmt.traceLine .matched (stringEscape rule) := by
  have hdetails : "\"" ++ (", " ++ ("result: " ++ ("s0" ++ (", " ++ ("location: " ++
      ("peg$computeLocation" ++ ("(" ++ ("startPos" ++ (", " ++ ("peg$currPos" ++ (")" ++
        (" \x7d" ++ (")" ++ ";"))))))))))))) =
      "\", " ++ Stmt.traceDetails .matched ++ " \x7d);" := by decide
  have hregister : (registerName 0).text = "s0" := by decide
  rw [← traceLine_of_pieces, ← hdetails]
  simp only [traceCall, stringLiteral, stringEscape_tag, objectLiteral, startName, positionName,
    tracerName, hregister, Fragment.call, Fragment.stmt, Text.joinWith_cons_cons,
    Text.joinWith_singleton, Option.map_some, Option.toList_some, List.cons_append,
    List.nil_append, String.append_assoc]

theorem traceEnter_eq (rule : String) : traceEnter rule = Stmt.opsAll (traceEnterCode rule) := by
  rw [traceEnter, traceCall_atStart (by decide : EventKind.enter ≠ .matched)]
  rfl

theorem traceLeave_eq (rule : String) : traceLeave rule = Stmt.opsAll (traceLeaveCode rule) := by
  rw [traceLeave, traceCall_matched, traceCall_atStart (by decide : EventKind.failed ≠ .matched)]
  rfl

theorem bodyOps_eq {f : RuleFunction} {code : List Stmt} (h : f.body = Stmt.opsAll code)
    (trace : Bool) :
    f.bodyOps trace = (routineOf trace f.rule f.registers code).bodyOps := by
  rw [bodyOps, h, traceEnter_eq, traceLeave_eq, Routine.bodyOps, routineOf]
  cases trace <;> simp

/-- The code of a function is that of its routine. -/
theorem ops_eq {f : RuleFunction} {code : List Stmt} (h : f.body = Stmt.opsAll code)
    (trace : Bool) : f.ops trace = (routineOf trace f.rule f.registers code).ops := by
  rw [ops, bodyOps_eq h, Routine.ops, routineOf, registerNames]

/-- The code of a function is read as its routine. -/
theorem read?_ops {f : RuleFunction} {code : List Stmt} (h : f.body = Stmt.opsAll code)
    (trace : Bool) :
    Routine.read? (f.ops trace) = some (routineOf trace f.rule f.registers code) := by
  rw [ops_eq h, Routine.read?_ops]

end RuleFunction

end PegGen.Js
