import PegGen.Grammar.Pool
import PegGen.Js.Module
import PegGen.Proofs.Js.Structure

/-!
# When code is generated

The statements of an expression come out of a computation that counts registers and may fail.  For
every shape of expression a lemma says when that computation succeeds and what it gives: the code of
the parts, put together, and the register count they leave.  Later proofs about generated code open
an expression by these lemmas (`expressionCode_seq_cons_iff` and its neighbours) and never unfold
the computation.

Generation succeeds if the pool has the expectation of every node
(`exists_expressionCode`, `exists_generate`), as the pool that is collected from the grammar does
(`mem_collectPool`).
-/

namespace PegGen

namespace OrderedSet

variable {α : Type} [DecidableEq α]

/-- The elements of a set have a place in it. -/
theorem exists_indexOf? {s : OrderedSet α} {a : α} (h : a ∈ s) : ∃ n, s.indexOf? a = some n := by
  cases hn : s.indexOf? a with
  | none => exact absurd (mem_def.1 h) (List.idxOf?_eq_none_iff.1 hn)
  | some n => exact ⟨n, rfl⟩

theorem getElem?_of_indexOf? {s : OrderedSet α} {a : α} {n : Nat} (h : s.indexOf? a = some n) :
    s.toList[n]? = some a := by
  rw [indexOf?, List.idxOf?_eq_some_iff] at h
  grind

end OrderedSet

namespace Js

/-! ## Computations that succeed -/

/-- Two computations succeed together if both do, one after the other. -/
theorem except_bind_eq_ok_iff {ε α β : Type} {x : Except ε α} {f : α → Except ε β} {b : β} :
    x >>= f = .ok b ↔ ∃ a, x = .ok a ∧ f a = .ok b := by
  cases x with
  | error e => simp [bind, Except.bind]
  | ok a => simp [bind, Except.bind]

/-- A loop that succeeds has the result for each element. -/
theorem forall₂_of_mapM_eq_ok {ε α β : Type} {f : α → Except ε β} {l : List α} {l' : List β}
    (h : l.mapM f = .ok l') : List.Forall₂ (fun a b => f a = .ok b) l l' := by
  induction l generalizing l' with
  | nil =>
      cases h
      exact .nil
  | cons a l ih =>
      rw [List.mapM_cons, except_bind_eq_ok_iff] at h
      obtain ⟨b, hb, h⟩ := h
      obtain ⟨rest, hrest, h⟩ := except_bind_eq_ok_iff.1 h
      cases h
      exact .cons hb (ih hrest)

namespace GenM

variable {α β : Type}

/-- Generation goes on with the registers that were counted. -/
theorem run_bind_eq_ok_iff {x : GenM α} {f : α → GenM β} {n n' : Nat} {b : β} :
    (x >>= f).run n = .ok (b, n') ↔ ∃ a m, x.run n = .ok (a, m) ∧ (f a).run m = .ok (b, n') := by
  rw [StateT.run_bind, except_bind_eq_ok_iff, Prod.exists]

theorem run_pure_eq_ok_iff {a b : α} {n n' : Nat} :
    (pure a : GenM α).run n = .ok (b, n') ↔ a = b ∧ n = n' := by
  show Except.ok (a, n) = .ok (b, n') ↔ _
  rw [Except.ok.injEq, Prod.mk.injEq]

theorem run_freshRegister_eq_ok_iff {n n' r : Nat} :
    freshRegister.run n = .ok (r, n') ↔ n = r ∧ n + 1 = n' := by
  show Except.ok (n, n + 1) = .ok (r, n') ↔ _
  rw [Except.ok.injEq, Prod.mk.injEq]

/-- A constant is looked up in the pool, and counts no register. -/
theorem run_constantOf_eq_ok_iff {pool : OrderedSet Expectation} {e : Expectation}
    {n n' c : Nat} :
    (constantOf pool e : GenM Nat).run n = .ok (c, n') ↔ pool.indexOf? e = some c ∧ n = n' := by
  show (constantOf pool e >>= fun c => Except.ok (c, n)) = _ ↔ _
  rw [except_bind_eq_ok_iff, constantOf]
  cases pool.indexOf? e with
  | none => simp
  | some i => simp

end GenM

/-- Every element has its counterpart. -/
theorem exists_mem_of_forall₂ {α β : Type} {R : α → β → Prop} {xs : List α} {ys : List β}
    (h : List.Forall₂ R xs ys) : ∀ x ∈ xs, ∃ y ∈ ys, R x y := by
  induction h with
  | nil => exact fun _ hx => nomatch hx
  | cons hxy _ ih =>
      intro x hx
      rcases List.mem_cons.1 hx with rfl | hx
      · exact ⟨_, .head _, hxy⟩
      · obtain ⟨y, hy, hR⟩ := ih x hx
        exact ⟨y, .tail _ hy, hR⟩

/-! ## The code of each shape of expression -/

section Shapes

variable {pool : OrderedSet Expectation} {target saved n n' : Nat} {code : List Stmt}
  {done : List Nat}

attribute [local simp] expressionCode itemsCode alternativesCode

theorem expressionCode_literal_iff {value : String} :
    (expressionCode pool target (.literal value false)).run n = .ok (code, n') ↔
      ∃ c, pool.indexOf? (.literal value false) = some c ∧
        code = leafCode target c
          (.sliceIs (Text.units value.toList).length (stringEscape value))
          (.quoted (stringEscape value))
          (.assign .position (.positionPlus (Text.units value.toList).length)) ∧ n' = n := by
  simp only [expressionCode, GenM.run_bind_eq_ok_iff, GenM.run_pure_eq_ok_iff,
    GenM.run_constantOf_eq_ok_iff]
  grind

theorem expressionCode_literalIgnoringCase_iff {value : String} :
    (expressionCode pool target (.literal value true)).run n = .ok (code, n') ↔
      ∃ c, pool.indexOf? (.literal value true) = some c ∧
        code = leafCode target c
          (.lowerSliceIs (Text.units value.toList).length
            (stringEscape (String.ofList (Text.lower value.toList))))
          (.slice (Text.units value.toList).length)
          (.assign .position (.positionPlus (Text.units value.toList).length)) ∧ n' = n := by
  simp only [expressionCode, GenM.run_bind_eq_ok_iff, GenM.run_pure_eq_ok_iff,
    GenM.run_constantOf_eq_ok_iff]
  grind

theorem expressionCode_charClass_iff {k : CharClass} :
    (expressionCode pool target (.charClass k)).run n = .ok (code, n') ↔
      ∃ c, pool.indexOf? (.charClass k) = some c ∧
        code = leafCode target c (.charIn c) .char .advance ∧ n' = n := by
  simp only [expressionCode, GenM.run_bind_eq_ok_iff, GenM.run_pure_eq_ok_iff,
    GenM.run_constantOf_eq_ok_iff]
  grind

theorem expressionCode_any_iff :
    (expressionCode pool target .any).run n = .ok (code, n') ↔
      ∃ c, pool.indexOf? .any = some c ∧
        code = leafCode target c .inputLeft .char .advance ∧ n' = n := by
  simp only [expressionCode, GenM.run_bind_eq_ok_iff, GenM.run_pure_eq_ok_iff,
    GenM.run_constantOf_eq_ok_iff]
  grind

theorem expressionCode_ref_iff {name : String} {location : Location} :
    (expressionCode pool target (.ref name location)).run n = .ok (code, n') ↔
      code = [.assign (.register target) (.invoke name)] ∧ n' = n := by
  simp only [expressionCode, GenM.run_pure_eq_ok_iff]
  grind

theorem expressionCode_seq_nil_iff :
    (expressionCode pool target (.seq [])).run n = .ok (code, n') ↔
      code = [.assign (.register target) (.array [])] ∧ n' = n := by
  simp only [expressionCode, GenM.run_pure_eq_ok_iff]
  grind

/-- A sequence saves the position in a register that is counted first. -/
theorem expressionCode_seq_cons_iff {e : Expression} {es : List Expression} :
    (expressionCode pool target (.seq (e :: es))).run n = .ok (code, n') ↔
      ∃ items, (itemsCode pool target n [] (e :: es)).run (n + 1) = .ok (items, n') ∧
        code = .assign (.register n) .position :: items := by
  simp only [expressionCode, GenM.run_bind_eq_ok_iff, GenM.run_pure_eq_ok_iff,
    GenM.run_freshRegister_eq_ok_iff]
  grind

theorem itemsCode_nil_iff :
    (itemsCode pool target saved done []).run n = .ok (code, n') ↔
      code = [.assign (.register target) (.array done)] ∧ n' = n := by
  simp only [itemsCode, GenM.run_pure_eq_ok_iff]
  grind

/-- An item has a register of its own, and the rest is inside the branch for its value. -/
theorem itemsCode_cons_iff {e : Expression} {es : List Expression} :
    (itemsCode pool target saved done (e :: es)).run n = .ok (code, n') ↔
      ∃ first m rest, (expressionCode pool n e).run (n + 1) = .ok (first, m) ∧
        (itemsCode pool target saved (done ++ [n]) es).run m = .ok (rest, n') ∧
        code = first ++ [.branch (.succeeded n) rest (giveUp target saved)] := by
  simp only [itemsCode, GenM.run_bind_eq_ok_iff, GenM.run_pure_eq_ok_iff,
    GenM.run_freshRegister_eq_ok_iff]
  grind

theorem expressionCode_choice_nil_iff :
    (expressionCode pool target (.choice [])).run n = .ok (code, n') ↔
      code = [.assign (.register target) .failure] ∧ n' = n := by
  simp only [expressionCode, GenM.run_pure_eq_ok_iff]
  grind

/-- All alternatives of a choice have the target of the choice. -/
theorem expressionCode_choice_cons_iff {e : Expression} {es : List Expression} :
    (expressionCode pool target (.choice (e :: es))).run n = .ok (code, n') ↔
      ∃ first m rest, (expressionCode pool target e).run n = .ok (first, m) ∧
        (alternativesCode pool target es).run m = .ok (rest, n') ∧ code = first ++ rest := by
  simp only [expressionCode, GenM.run_bind_eq_ok_iff, GenM.run_pure_eq_ok_iff]
  grind

theorem alternativesCode_nil_iff :
    (alternativesCode pool target []).run n = .ok (code, n') ↔ code = [] ∧ n' = n := by
  simp only [alternativesCode, GenM.run_pure_eq_ok_iff]
  grind

/-- A later alternative, with those behind it, is inside the branch for a failure so far. -/
theorem alternativesCode_cons_iff {e : Expression} {es : List Expression} :
    (alternativesCode pool target (e :: es)).run n = .ok (code, n') ↔
      ∃ first m rest, (expressionCode pool target e).run n = .ok (first, m) ∧
        (alternativesCode pool target es).run m = .ok (rest, n') ∧
        code = [.branch (.failed target) (first ++ rest) []] := by
  simp only [alternativesCode, GenM.run_bind_eq_ok_iff, GenM.run_pure_eq_ok_iff]
  grind

/-- A description counts no register of its own. -/
theorem expressionCode_named_iff {name : String} {body : Expression} :
    (expressionCode pool target (.named name body)).run n = .ok (code, n') ↔
      ∃ inner c, (expressionCode pool target body).run n = .ok (inner, n') ∧
        pool.indexOf? (.other name) = some c ∧
        code = .silence :: (inner ++ [.unsilence,
          .branch (.failed target) [reportFailure c] []]) := by
  simp only [expressionCode, GenM.run_bind_eq_ok_iff, GenM.run_pure_eq_ok_iff,
    GenM.run_constantOf_eq_ok_iff]
  grind

end Shapes

/-! ## Registers are only added -/

section Registers

variable {pool : OrderedSet Expectation}

theorem le_of_itemsCode {es : List Expression}
    (h : ∀ e ∈ es, ∀ {target n n' code},
      (expressionCode pool target e).run n = .ok (code, n') → n ≤ n')
    {target saved n n' : Nat} {done : List Nat} {code : List Stmt}
    (hcode : (itemsCode pool target saved done es).run n = .ok (code, n')) : n ≤ n' := by
  induction es generalizing done n code with
  | nil => exact Nat.le_of_eq (itemsCode_nil_iff.1 hcode).2.symm
  | cons e es ih =>
      obtain ⟨first, m, rest, hfirst, hrest, -⟩ := itemsCode_cons_iff.1 hcode
      have hle := h e (.head _) hfirst
      have hle' := ih (fun e he => h e (.tail _ he)) hrest
      omega

theorem le_of_alternativesCode {es : List Expression}
    (h : ∀ e ∈ es, ∀ {target n n' code},
      (expressionCode pool target e).run n = .ok (code, n') → n ≤ n')
    {target n n' : Nat} {code : List Stmt}
    (hcode : (alternativesCode pool target es).run n = .ok (code, n')) : n ≤ n' := by
  induction es generalizing n code with
  | nil => exact Nat.le_of_eq (alternativesCode_nil_iff.1 hcode).2.symm
  | cons e es ih =>
      obtain ⟨first, m, rest, hfirst, hrest, -⟩ := alternativesCode_cons_iff.1 hcode
      exact Nat.le_trans (h e (.head _) hfirst) (ih (fun e he => h e (.tail _ he)) hrest)

/-- Registers are only added. -/
theorem le_of_expressionCode {e : Expression} {target n n' : Nat} {code : List Stmt}
    (hcode : (expressionCode pool target e).run n = .ok (code, n')) : n ≤ n' := by
  induction e using Expression.induct generalizing target n code n' with
  | literal value ignoreCase =>
      cases ignoreCase with
      | false =>
          obtain ⟨_, -, -, rfl⟩ := expressionCode_literal_iff.1 hcode
          exact Nat.le_refl _
      | true =>
          obtain ⟨_, -, -, rfl⟩ := expressionCode_literalIgnoringCase_iff.1 hcode
          exact Nat.le_refl _
  | charClass k =>
      obtain ⟨_, -, -, rfl⟩ := expressionCode_charClass_iff.1 hcode
      exact Nat.le_refl _
  | any =>
      obtain ⟨_, -, -, rfl⟩ := expressionCode_any_iff.1 hcode
      exact Nat.le_refl _
  | ref name location => exact Nat.le_of_eq (expressionCode_ref_iff.1 hcode).2.symm
  | seq items ih =>
      cases items with
      | nil => exact Nat.le_of_eq (expressionCode_seq_nil_iff.1 hcode).2.symm
      | cons e es =>
          obtain ⟨_, hitems, -⟩ := expressionCode_seq_cons_iff.1 hcode
          exact Nat.le_of_succ_le (le_of_itemsCode ih hitems)
  | choice items ih =>
      cases items with
      | nil => exact Nat.le_of_eq (expressionCode_choice_nil_iff.1 hcode).2.symm
      | cons e es =>
          obtain ⟨_, _, _, hfirst, hrest, -⟩ := expressionCode_choice_cons_iff.1 hcode
          exact Nat.le_trans (ih e (.head _) hfirst)
            (le_of_alternativesCode (fun e he => ih e (.tail _ he)) hrest)
  | named name body ih =>
      obtain ⟨_, _, hbody, -⟩ := expressionCode_named_iff.1 hcode
      exact ih hbody

end Registers

/-! ## Generation succeeds -/

section Success

variable {pool : OrderedSet Expectation}

/-- The code of the items of a sequence exists if the code of each item does. -/
theorem exists_itemsCode {es : List Expression}
    (h : ∀ e ∈ es, ∀ target n, ∃ code n', (expressionCode pool target e).run n = .ok (code, n'))
    (target saved : Nat) (done : List Nat) (n : Nat) :
    ∃ code n', (itemsCode pool target saved done es).run n = .ok (code, n') := by
  induction es generalizing done n with
  | nil => exact ⟨_, _, itemsCode_nil_iff.2 ⟨rfl, rfl⟩⟩
  | cons e es ih =>
      obtain ⟨first, m, hfirst⟩ := h e (.head _) n (n + 1)
      obtain ⟨rest, n', hrest⟩ := ih (fun e he => h e (.tail _ he)) (done ++ [n]) m
      exact ⟨_, _, itemsCode_cons_iff.2 ⟨first, m, rest, hfirst, hrest, rfl⟩⟩

/-- The code of the alternatives of a choice exists if the code of each one does. -/
theorem exists_alternativesCode {es : List Expression}
    (h : ∀ e ∈ es, ∀ target n, ∃ code n', (expressionCode pool target e).run n = .ok (code, n'))
    (target n : Nat) :
    ∃ code n', (alternativesCode pool target es).run n = .ok (code, n') := by
  induction es generalizing n with
  | nil => exact ⟨_, _, alternativesCode_nil_iff.2 ⟨rfl, rfl⟩⟩
  | cons e es ih =>
      obtain ⟨first, m, hfirst⟩ := h e (.head _) target n
      obtain ⟨rest, n', hrest⟩ := ih (fun e he => h e (.tail _ he)) m
      exact ⟨_, _, alternativesCode_cons_iff.2 ⟨first, m, rest, hfirst, hrest, rfl⟩⟩

/-- An expression has code if the pool has the expectation of every node of it. -/
theorem exists_expressionCode {e : Expression} (h : ∀ x ∈ e.expectations, x ∈ pool)
    (target n : Nat) : ∃ code n', (expressionCode pool target e).run n = .ok (code, n') := by
  induction e using Expression.induct generalizing target n with
  | literal value ignoreCase =>
      obtain ⟨c, hc⟩ := OrderedSet.exists_indexOf? (h _ (.head _))
      cases ignoreCase with
      | false => exact ⟨_, _, expressionCode_literal_iff.2 ⟨c, hc, rfl, rfl⟩⟩
      | true => exact ⟨_, _, expressionCode_literalIgnoringCase_iff.2 ⟨c, hc, rfl, rfl⟩⟩
  | charClass k =>
      obtain ⟨c, hc⟩ := OrderedSet.exists_indexOf? (h _ (.head _))
      exact ⟨_, _, expressionCode_charClass_iff.2 ⟨c, hc, rfl, rfl⟩⟩
  | any =>
      obtain ⟨c, hc⟩ := OrderedSet.exists_indexOf? (h _ (.head _))
      exact ⟨_, _, expressionCode_any_iff.2 ⟨c, hc, rfl, rfl⟩⟩
  | ref name location => exact ⟨_, _, expressionCode_ref_iff.2 ⟨rfl, rfl⟩⟩
  | seq items ih =>
      rw [Expression.expectations_seq] at h
      have hitems : ∀ e ∈ items, ∀ target n,
          ∃ code n', (expressionCode pool target e).run n = .ok (code, n') :=
        fun e he => ih e he fun x hx => h x (List.mem_flatMap.2 ⟨e, he, hx⟩)
      cases items with
      | nil => exact ⟨_, _, expressionCode_seq_nil_iff.2 ⟨rfl, rfl⟩⟩
      | cons e es =>
          obtain ⟨code, n', hcode⟩ := exists_itemsCode hitems target n [] (n + 1)
          exact ⟨_, _, expressionCode_seq_cons_iff.2 ⟨code, hcode, rfl⟩⟩
  | choice items ih =>
      rw [Expression.expectations_choice] at h
      have hitems : ∀ e ∈ items, ∀ target n,
          ∃ code n', (expressionCode pool target e).run n = .ok (code, n') :=
        fun e he => ih e he fun x hx => h x (List.mem_flatMap.2 ⟨e, he, hx⟩)
      cases items with
      | nil => exact ⟨_, _, expressionCode_choice_nil_iff.2 ⟨rfl, rfl⟩⟩
      | cons e es =>
          obtain ⟨first, m, hfirst⟩ := hitems e (.head _) target n
          obtain ⟨rest, n', hrest⟩ :=
            exists_alternativesCode (fun e he => hitems e (.tail _ he)) target m
          exact ⟨_, _, expressionCode_choice_cons_iff.2 ⟨first, m, rest, hfirst, hrest, rfl⟩⟩
  | named name body ih =>
      obtain ⟨c, hc⟩ := OrderedSet.exists_indexOf? (h _ (.head _))
      obtain ⟨code, n', hcode⟩ := ih (fun x hx => h x (.tail _ hx)) target n
      exact ⟨_, _, expressionCode_named_iff.2 ⟨code, c, hcode, hc, rfl⟩⟩

/-- The function of a rule computes its expression into the first register. -/
theorem generate_rule_iff {r : Rule} {f : RuleFunction} :
    RuleFunction.generate pool r = .ok f ↔
      ∃ code, (expressionCode pool 0 r.expression).run 1 = .ok (code, f.registers) ∧
        f.body = Stmt.opsAll code ∧ f.rule = r.name := by
  have haction : ∀ body registers, (do
      let result ← freshRegister
      expressionOps pool result r.expression : GenM (List Code.Op)).run 0 = .ok (body, registers) ↔
        ∃ code, (expressionCode pool 0 r.expression).run 1 = .ok (code, registers) ∧
          body = Stmt.opsAll code := by
    intro body registers
    simp only [GenM.run_bind_eq_ok_iff, GenM.run_freshRegister_eq_ok_iff, ← run_expressionOps_iff]
    grind
  rw [RuleFunction.generate, except_bind_eq_ok_iff]
  constructor
  · rintro ⟨⟨body, registers⟩, hrun, hf⟩
    cases hf
    obtain ⟨code, hcode, hbody⟩ := (haction _ _).1 hrun
    exact ⟨code, hcode, hbody, rfl⟩
  · rintro ⟨code, hcode, hbody, hname⟩
    exact ⟨(f.body, f.registers), (haction _ _).2 ⟨code, hcode, hbody⟩, by rw [← hname]; rfl⟩

/-- The code of the function of a rule is read as the statements of its expression, with the calls
of the tracer around them. -/
theorem exists_read?_of_generate {r : Rule} {f : RuleFunction}
    (h : RuleFunction.generate pool r = .ok f) :
    ∃ code, (expressionCode pool 0 r.expression).run 1 = .ok (code, f.registers) ∧
      ∀ trace, Routine.read? (f.ops trace) = some (routineOf trace r.name f.registers code) := by
  obtain ⟨code, hcode, hbody, hname⟩ := generate_rule_iff.1 h
  exact ⟨code, hcode, fun trace => hname ▸ RuleFunction.read?_ops hbody trace⟩

/-- The function is the one that is read from the code generated for the rule. -/
def RoutineFor (pool : OrderedSet Expectation) (trace : Bool) (r : Rule) (fn : Routine) : Prop :=
  ∃ registers code, (expressionCode pool 0 r.expression).run 1 = .ok (code, registers) ∧
    fn = routineOf trace r.name registers code

/-- From the code generated for some rules, functions are read for these rules, in their order. -/
theorem exists_routines {rules : List Rule} {functions : List RuleFunction}
    (h : rules.mapM (RuleFunction.generate pool) = .ok functions) (trace : Bool) :
    ∃ routines, (functions.map (·.ops trace)).mapM Routine.read? = some routines ∧
      List.Forall₂ (RoutineFor pool trace) rules routines := by
  have hgenerated := forall₂_of_mapM_eq_ok h
  clear h
  induction hgenerated with
  | nil => exact ⟨[], rfl, .nil⟩
  | cons hf _ ih =>
      obtain ⟨routines, hroutines, hall⟩ := ih
      obtain ⟨code, hcode, hread⟩ := exists_read?_of_generate hf
      refine ⟨_ :: routines, ?_, .cons ⟨_, code, hcode, rfl⟩ hall⟩
      rw [List.map_cons, List.mapM_cons, hread, hroutines]
      rfl

/-- Every rule has a function if the pool has the expectations of all rules. -/
theorem exists_mapM_generate {rules : List Rule}
    (h : ∀ r ∈ rules, ∀ x ∈ r.expression.expectations, x ∈ pool) :
    ∃ functions, rules.mapM (RuleFunction.generate pool) = .ok functions := by
  induction rules with
  | nil => exact ⟨[], rfl⟩
  | cons r rules ih =>
      obtain ⟨code, registers, hcode⟩ := exists_expressionCode (h r (.head _)) 0 1
      obtain ⟨functions, hfunctions⟩ := ih fun r hr => h r (.tail _ hr)
      have hf : RuleFunction.generate pool r = .ok ⟨r.name, registers, Stmt.opsAll code⟩ :=
        generate_rule_iff.2 ⟨code, hcode, rfl, rfl⟩
      exact ⟨_ :: functions, by rw [List.mapM_cons, hf, hfunctions]; rfl⟩

/-- A grammar with a collected pool has a module for every choice of start rules. -/
theorem exists_generate {options : Options} (hstart : options.startRules ≠ []) (g : Grammar) :
    ∃ p, ParserModule.generate options { g with pool := g.collectPool } = .ok p := by
  have hpool : ∀ r ∈ g.rules, ∀ x ∈ r.expression.expectations, x ∈ g.collectPool :=
    fun r hr x hx => Grammar.mem_collectPool.2 (.inl ⟨r, hr, hx⟩)
  obtain ⟨functions, hfunctions⟩ := exists_mapM_generate hpool
  obtain ⟨c, hc⟩ := OrderedSet.exists_indexOf?
    (Grammar.mem_collectPool.2 (.inr rfl) : .endOfInput ∈ g.collectPool)
  obtain ⟨first, others, hfirst⟩ := List.exists_cons_of_ne_nil hstart
  refine ⟨⟨options, first, g.collectPool, functions, c⟩, ?_⟩
  rw [ParserModule.generate, hfirst]
  show (g.rules.mapM (RuleFunction.generate g.collectPool) >>= _) = _
  rw [hfunctions]
  show (constantOf g.collectPool .endOfInput >>= _) = _
  rw [constantOf, hc]
  rfl

end Success

end Js

end PegGen
