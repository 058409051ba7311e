import PegGen.Proofs.Js.Closedness

/-!
# When no code is generated

Generation looks up the constant of an expectation wherever the code of a shape needs one, and fails
at the first that is not in the pool.  The nodes of an expression have expectations too, which are
listed by a traversal of their own.  The two agree: generation fails only on expectations of nodes
(`FailsOn`, with one lemma per step of generation), and if it succeeds then every expectation of a
node is used by some failure in the code (`ParserModule.reads`), so it is in the pool.

The pass that writes the parser puts another grammar in place as its last step only.  So if it fails
then nothing has changed, and otherwise nothing but the code.
-/

namespace PegGen

namespace Js

/-! ## What generation fails on -/

/-- A constant is found, or its expectation is not in the pool and the error says so. -/
theorem constantOf_cases (pool : OrderedSet Expectation) (e : Expectation) :
    (∃ n, constantOf pool e = .ok n) ∨
      (e ∉ pool ∧ constantOf pool e = .error (uncollected e)) := by
  rw [constantOf]
  cases h : pool.indexOf? e with
  | none => exact .inr ⟨List.idxOf?_eq_none_iff.1 h, rfl⟩
  | some n => exact .inl ⟨n, rfl⟩

namespace GenM

variable {α β : Type} {Missing : Expectation → Prop}

/-- The computation fails only because an expectation is missing. -/
def FailsOn (Missing : Expectation → Prop) (x : GenM α) : Prop :=
  ∀ n err, x.run n = .error err → ∃ e, Missing e ∧ err = uncollected e

namespace FailsOn

theorem pure (a : α) : FailsOn Missing (pure a : GenM α) :=
  fun _ _ h => nomatch h

theorem freshRegister : FailsOn Missing freshRegister :=
  fun _ _ h => nomatch h

theorem bind {x : GenM α} {f : α → GenM β} (hx : FailsOn Missing x)
    (hf : ∀ a, FailsOn Missing (f a)) : FailsOn Missing (x >>= f) := by
  intro n err h
  rw [StateT.run_bind] at h
  cases hrun : x.run n with
  | error err' =>
      rw [hrun] at h
      cases h
      exact hx n err hrun
  | ok result =>
      rw [hrun] at h
      exact hf result.1 result.2 err h

theorem constantOf {pool : OrderedSet Expectation} {e : Expectation} (h : e ∉ pool → Missing e) :
    FailsOn Missing (constantOf pool e : GenM Nat) := by
  intro n err hrun
  change (Js.constantOf pool e >>= fun c => Except.ok (c, n)) = _ at hrun
  rcases constantOf_cases pool e with ⟨i, hok⟩ | ⟨hmissing, herror⟩
  · rw [hok] at hrun
    cases hrun
  · rw [herror] at hrun
    cases hrun
    exact ⟨e, h hmissing, rfl⟩

theorem map {x : GenM α} (f : α → β) (hx : FailsOn Missing x) : FailsOn Missing (f <$> x) := by
  rw [map_eq_pure_bind]
  exact hx.bind fun _ => .pure _

theorem mono {Missing' : Expectation → Prop} {x : GenM α} (h : FailsOn Missing x)
    (himp : ∀ e, Missing e → Missing' e) : FailsOn Missing' x := by
  intro n err hrun
  obtain ⟨e, he, herr⟩ := h n err hrun
  exact ⟨e, himp e he, herr⟩

end FailsOn

end GenM

open GenM (FailsOn)

section Shapes

variable {pool : OrderedSet Expectation} {Missing : Expectation → Prop}

/-- What is missing for an item is missing for all of them together. -/
theorem failsOn_of_mem {items : List Expression}
    (h : ∀ e ∈ items, ∀ target,
      FailsOn (fun x => x ∈ e.expectations ∧ x ∉ pool) (expressionCode pool target e)) :
    ∀ e ∈ items, ∀ target,
      FailsOn (fun x => x ∈ items.flatMap Expression.expectations ∧ x ∉ pool)
        (expressionCode pool target e) :=
  fun e he target => (h e he target).mono fun _ hx => ⟨List.mem_flatMap.2 ⟨e, he, hx.1⟩, hx.2⟩

theorem failsOn_itemsCode {es : List Expression}
    (h : ∀ e ∈ es, ∀ target, FailsOn Missing (expressionCode pool target e))
    (target saved : Nat) (done : List Nat) :
    FailsOn Missing (itemsCode pool target saved done es) := by
  induction es generalizing done with
  | nil =>
      rw [itemsCode]
      exact .pure _
  | cons e es ih =>
      rw [itemsCode]
      exact .bind .freshRegister fun result => .bind (h e (.head _) result) fun code =>
        .bind (ih (fun e he => h e (.tail _ he)) _) fun rest => .pure _

theorem failsOn_alternativesCode {es : List Expression}
    (h : ∀ e ∈ es, ∀ target, FailsOn Missing (expressionCode pool target e)) (target : Nat) :
    FailsOn Missing (alternativesCode pool target es) := by
  induction es with
  | nil =>
      rw [alternativesCode]
      exact .pure _
  | cons e es ih =>
      rw [alternativesCode]
      exact .bind (h e (.head _) target) fun code =>
        .bind (ih fun e he => h e (.tail _ he)) fun rest => .pure _

/-- The code of an expression fails only on expectations of its nodes. -/
theorem failsOn_expressionCode (pool : OrderedSet Expectation) (e : Expression) (target : Nat) :
    FailsOn (fun x => x ∈ e.expectations ∧ x ∉ pool) (expressionCode pool target e) := by
  induction e using Expression.induct generalizing target with
  | literal value ignoreCase =>
      rw [expressionCode]
      exact .bind (.constantOf fun hnot => ⟨.head _, hnot⟩) fun constant => by
        cases ignoreCase <;> exact .pure _
  | charClass k =>
      rw [expressionCode]
      exact .bind (.constantOf fun hnot => ⟨.head _, hnot⟩) fun constant => .pure _
  | any =>
      rw [expressionCode]
      exact .bind (.constantOf fun hnot => ⟨.head _, hnot⟩) fun constant => .pure _
  | ref name location =>
      rw [expressionCode]
      exact .pure _
  | seq items ih =>
      rw [Expression.expectations_seq]
      have hitems := failsOn_of_mem ih
      cases items with
      | nil =>
          rw [expressionCode]
          exact .pure _
      | cons e es =>
          rw [expressionCode]
          exact .bind .freshRegister fun saved =>
            .bind (failsOn_itemsCode hitems target saved []) fun code => .pure _
  | choice items ih =>
      rw [Expression.expectations_choice]
      have hitems := failsOn_of_mem ih
      cases items with
      | nil =>
          rw [expressionCode]
          exact .pure _
      | cons e es =>
          rw [expressionCode]
          exact .bind (hitems e (.head _) target) fun code =>
            .bind (failsOn_alternativesCode (fun e he => hitems e (.tail _ he)) target)
              fun rest => .pure _
  | named name body ih =>
      rw [expressionCode]
      exact .bind ((ih target).mono fun x hx => ⟨.tail _ hx.1, hx.2⟩) fun code =>
        .bind (.constantOf fun hnot => ⟨.head _, hnot⟩) fun constant => .pure _

/-- So does the code that is emitted for it. -/
theorem failsOn_expressionOps (pool : OrderedSet Expectation) (e : Expression) (target : Nat) :
    FailsOn (fun x => x ∈ e.expectations ∧ x ∉ pool) (expressionOps pool target e) := by
  rw [expressionOps_eq]
  exact (failsOn_expressionCode pool e target).map _

end Shapes

/-! ## Rules and modules -/

section Modules

variable {pool : OrderedSet Expectation} {err : CompileError}

theorem generate_rule_eq_error {r : Rule} (h : RuleFunction.generate pool r = .error err) :
    ∃ x ∈ r.expression.expectations, x ∉ pool ∧ err = uncollected x := by
  have hfails : FailsOn (fun x => x ∈ r.expression.expectations ∧ x ∉ pool) (do
      let result ← freshRegister
      expressionOps pool result r.expression : GenM (List Code.Op)) :=
    .bind .freshRegister fun result => failsOn_expressionOps pool r.expression result
  rw [RuleFunction.generate] at h
  cases hrun : (do
      let result ← freshRegister
      expressionOps pool result r.expression : GenM (List Code.Op)).run 0 with
  | error err' =>
      rw [hrun] at h
      cases h
      obtain ⟨x, ⟨hx, hmissing⟩, rfl⟩ := hfails 0 err hrun
      exact ⟨x, hx, hmissing, rfl⟩
  | ok result =>
      rw [hrun] at h
      cases h

/-- The first failure ends a loop. -/
theorem exists_of_mapM_eq_error {ε α β : Type} {f : α → Except ε β} {l : List α} {e : ε}
    (h : l.mapM f = .error e) : ∃ a ∈ l, f a = .error e := by
  induction l with
  | nil => cases h
  | cons a l ih =>
      rw [List.mapM_cons] at h
      cases hfirst : f a with
      | error e' =>
          rw [hfirst] at h
          cases h
          exact ⟨a, .head _, hfirst⟩
      | ok b =>
          rw [hfirst] at h
          cases hrest : l.mapM f with
          | error e' =>
              rw [hrest] at h
              cases h
              obtain ⟨a', ha', hfails⟩ := ih hrest
              exact ⟨a', .tail _ ha', hfails⟩
          | ok bs =>
              rw [hrest] at h
              cases h

/-- A module that cannot be made has no start rule, or needs a constant that is not in the pool. -/
theorem ParserModule.generate_eq_error {o : Options} {g : Grammar}
    (h : generate o g = .error err) :
    (o.startRules = [] ∧
      err = .pass "no start rules, options have to be resolved against the grammar first") ∨
    (∃ x, err = uncollected x ∧ x ∉ g.pool ∧
      (x = .endOfInput ∨ ∃ r ∈ g.rules, x ∈ r.expression.expectations)) := by
  rw [generate] at h
  cases hstart : o.startRules with
  | nil =>
      rw [hstart] at h
      cases h
      exact .inl ⟨rfl, rfl⟩
  | cons first others =>
      rw [hstart] at h
      refine .inr ?_
      cases hfunctions : g.rules.mapM (RuleFunction.generate g.pool) with
      | error err' =>
          rw [hfunctions] at h
          cases h
          obtain ⟨r, hr, hrule⟩ := exists_of_mapM_eq_error hfunctions
          obtain ⟨x, hx, hmissing, rfl⟩ := generate_rule_eq_error hrule
          exact ⟨x, rfl, hmissing, .inr ⟨r, hr, hx⟩⟩
      | ok functions =>
          rw [hfunctions] at h
          change constantOf g.pool .endOfInput >>= _ = _ at h
          rcases constantOf_cases g.pool .endOfInput with ⟨i, hok⟩ | ⟨hmissing, herror⟩
          · rw [hok] at h
            cases h
          · rw [herror] at h
            cases h
            exact ⟨.endOfInput, rfl, hmissing, .inl rfl⟩

/-- A module that is made has a start rule and all constants it needs. -/
theorem ParserModule.mem_pool_of_generate {o : Options} {g : Grammar} {p : ParserModule}
    (h : generate o g = .ok p) :
    o.startRules ≠ [] ∧ .endOfInput ∈ g.pool ∧
      ∀ r ∈ g.rules, ∀ x ∈ r.expression.expectations, x ∈ g.pool := by
  obtain ⟨-, hfirst, hpool, -, hend⟩ := generate_eq_ok h
  refine ⟨List.ne_nil_of_mem hfirst, List.mem_of_getElem? hend, fun r hr x hx => ?_⟩
  obtain ⟨fn, -, hof⟩ := exists_mem_of_forall₂ (reads h).sites r hr
  obtain ⟨i, -, hi⟩ := hof.names.exists_fails (Rule.fails_mem_mentions_iff.2 hx)
  exact hpool ▸ List.mem_of_getElem? hi

end Modules

end Js

/-! ## The pass -/

/-- Something that the parser of the grammar needs is missing: a start rule, or the constant of the
end of the input or of some node. -/
def Grammar.LacksFor (g : Grammar) (o : Options) : Prop :=
  o.startRules = [] ∨ .endOfInput ∉ g.pool ∨
    ∃ r ∈ g.rules, ∃ node ∈ r.expression.nodes, ∃ x, node.expectation? = some x ∧ x ∉ g.pool

theorem Expression.mem_expectations_iff {e : Expression} {x : Expectation} :
    x ∈ e.expectations ↔ ∃ node ∈ e.nodes, node.expectation? = some x :=
  List.mem_filterMap

open PassT Js

variable {o : Options} {w : Work} {err : CompileError}

theorem lacksFor_of_generate_eq_error (h : ParserModule.generate o w.grammar = .error err) :
    w.grammar.LacksFor o ∧ ∃ message, err = .pass message := by
  rcases ParserModule.generate_eq_error h with ⟨hstart, rfl⟩ | ⟨x, rfl, hmissing, hneeded⟩
  · exact ⟨.inl hstart, _, rfl⟩
  · refine ⟨.inr ?_, _, rfl⟩
    rcases hneeded with rfl | ⟨r, hr, hx⟩
    · exact .inl hmissing
    · obtain ⟨node, hnode, hexpectation⟩ := Expression.mem_expectations_iff.1 hx
      exact .inr ⟨r, hr, node, hnode, x, hexpectation, hmissing⟩

theorem not_lacksFor_of_generate_eq_ok {p : ParserModule}
    (h : ParserModule.generate o w.grammar = .ok p) : ¬ w.grammar.LacksFor o := by
  obtain ⟨hstart, hend, hnodes⟩ := ParserModule.mem_pool_of_generate h
  rintro (hnone | hmissing | ⟨r, hr, node, hnode, x, hx, hmissing⟩)
  · exact hstart hnone
  · exact hmissing hend
  · exact hmissing (hnodes r hr x (Expression.mem_expectations_iff.2 ⟨node, hnode, hx⟩))

theorem runWith_generateParser_error (h : ParserModule.generate o w.grammar = .error err) :
    runWith o w (generateParser : Pass Id) = (.error err, w) := by
  rw [generateParser, runWith_bind, runWith_grammar, andThen, runWith_bind, runWith_read, andThen,
    h]
  rfl

/-- The pass that writes the parser fails exactly if something is missing.  Then nothing has
changed, and otherwise nothing but the code. -/
theorem generateParser_fails_iff (o : Options) (w : Work) :
    ((∃ err, (runWith o w (generateParser : Pass Id)).1 = .error err) ↔ w.grammar.LacksFor o) ∧
    (∀ err, (runWith o w (generateParser : Pass Id)).1 = .error err →
      (∃ message, err = .pass message) ∧ (runWith o w (generateParser : Pass Id)).2 = w) ∧
    ((runWith o w (generateParser : Pass Id)).1 = .ok () →
      ∃ code, (runWith o w (generateParser : Pass Id)).2.grammar =
        { w.grammar with code := some code }) := by
  cases h : ParserModule.generate o w.grammar with
  | error err =>
      obtain ⟨hlacks, hpass⟩ := lacksFor_of_generate_eq_error h
      rw [runWith_generateParser_error h]
      refine ⟨⟨fun _ => hlacks, fun _ => ⟨err, rfl⟩⟩, ?_, fun hok => nomatch hok⟩
      rintro _ ⟨rfl⟩
      exact ⟨hpass, rfl⟩
  | ok p =>
      obtain ⟨session, hrun, -⟩ := runWith_generateParser o h
      rw [hrun]
      refine ⟨⟨fun herror => ?_, fun hlacks => ?_⟩, (fun _ herror => nomatch herror),
        fun _ => ⟨p.render, rfl⟩⟩
      · obtain ⟨_, herror⟩ := herror
        cases herror
      · exact absurd hlacks (not_lacksFor_of_generate_eq_ok h)

/-- A description around a choice, in a sequence. -/
def Grammar.described (pool : OrderedSet Expectation) : Grammar where
  rules :=
    [⟨"s", .seq [.literal "x" false, .named "n" (.choice [.any, .ref "s" default])], default⟩]
  pool := pool

theorem generateParser_fails_iff_described :
    let o : Options := { startRules := ["s"] }
    let partly : Work := ⟨.described (.ofList [.literal "x" false, .any, .endOfInput]), {}⟩
    let fully : Work :=
      ⟨.described (.ofList [.endOfInput, .any, .other "n", .literal "x" false]), {}⟩
    (∃ message, runWith o partly (generateParser : Pass Id) = (.error (.pass message), partly)) ∧
      ∃ code, (runWith o fully (generateParser : Pass Id)).2.grammar =
        { fully.grammar with code := some code } := by
  intro o partly fully
  obtain ⟨hiff, hfails, -⟩ := generateParser_fails_iff o partly
  have hlacks : partly.grammar.LacksFor o :=
    .inr (.inr ⟨_, .head _, .named "n" (.choice [.any, .ref "s" default]), by
      simp [Expression.nodes, Expression.nodesAll], .other "n", rfl, by decide⟩)
  obtain ⟨err, herror⟩ := hiff.2 hlacks
  obtain ⟨⟨message, rfl⟩, hwork⟩ := hfails err herror
  exact ⟨⟨message, Prod.ext herror hwork⟩, (generateParser_fails_iff o fully).2.2 rfl⟩

end PegGen
