import PegGen.Proofs.Js.Generation

/-!
# What code mentions

The code of a rule names other rule functions and constants for expectations, and has string
literals in it.  `Stmt.mentions` lists these places, in order.  An expression has such places too:
it refers to rules, it compares the input with texts, and it fails with expectations.  The code of
an expression mentions what the expression does, one for one and in the same order, with the
constant of an expectation for the expectation (`names_expressionCode`).
-/

namespace PegGen.Js

/-! ## Mentions -/

/-- A place where a rule function or a constant is named, or a string literal stands. -/
inductive Mention (α : Type) where
  /-- There is a string literal. -/
  | quotes (literal : String)
  /-- The function of a rule is called. -/
  | calls (rule : String)
  /-- A character is tested against the class of a constant. -/
  | tests (constant : α)
  /-- A failure is reported with a constant. -/
  | fails (constant : α)
deriving DecidableEq, Repr

/-- The mention of something else instead of a constant. -/
def Mention.map {α β : Type} (f : α → β) : Mention α → Mention β
  | .quotes literal => .quotes literal
  | .calls rule => .calls rule
  | .tests constant => .tests (f constant)
  | .fails constant => .fails (f constant)

/-- What a value mentions. -/
def Expr.mentions : Expr → List (Mention Nat)
  | .quoted literal => [.quotes literal]
  | .invoke rule => [.calls rule]
  | .position | .positionPlus _ | .register _ | .failure | .slice _ | .char | .array _ => []

/-- What a condition mentions. -/
def Test.mentions : Test → List (Mention Nat)
  | .sliceIs _ literal | .lowerSliceIs _ literal => [.quotes literal]
  | .charIn constant => [.tests constant]
  | .inputLeft | .failed _ | .succeeded _ | .unsilenced | .tracing => []

namespace Stmt

mutual

/-- What a statement mentions, in order. -/
def mentions : Stmt → List (Mention Nat)
  | .assign _ value => value.mentions
  | .fail constant => [.fails constant]
  | .trace _ literal => [.quotes literal]
  | .branch test yes no => test.mentions ++ (mentionsAll yes ++ mentionsAll no)
  | .blank | .advance | .silence | .unsilence | .start => []

/-- What several statements mention, in order. -/
def mentionsAll : List Stmt → List (Mention Nat)
  | [] => []
  | s :: stmts => mentions s ++ mentionsAll stmts

end

@[simp] theorem mentionsAll_append (stmts stmts' : List Stmt) :
    mentionsAll (stmts ++ stmts') = mentionsAll stmts ++ mentionsAll stmts' := by
  induction stmts with
  | nil => rfl
  | cons s stmts ih => rw [List.cons_append, mentionsAll, ih, mentionsAll, List.append_assoc]

end Stmt

/-- What a rule function mentions. -/
def Routine.mentions (r : Routine) : List (Mention Nat) :=
  Stmt.mentionsAll r.body

/-- The string literal at a place. -/
def Mention.literal? {α : Type} : Mention α → Option String
  | .quotes literal => some literal
  | .calls _ | .tests _ | .fails _ => none

/-- The string literals in a rule function. -/
def Routine.literals (r : Routine) : List String :=
  r.mentions.filterMap Mention.literal?

theorem Routine.mem_literals_iff {r : Routine} {literal : String} :
    literal ∈ r.literals ↔ .quotes literal ∈ r.mentions := by
  rw [literals, List.mem_filterMap]
  constructor
  · rintro ⟨m, hm, hliteral⟩
    cases m <;> cases hliteral
    exact hm
  · exact fun hmem => ⟨_, hmem, rfl⟩

end PegGen.Js

namespace PegGen

namespace Expression

open Js (Mention stringEscape)

mutual

/-- What an expression mentions: the texts it compares the input with, the rules it refers to, the
classes it tests characters against, and the expectations it fails with.  A description comes after
what it describes.  The text of a literal is compared and then taken, unless letter case is
ignored. -/
def mentions : Expression → List (Mention Expectation)
  | .literal value false =>
      [.quotes (stringEscape value), .quotes (stringEscape value), .fails (.literal value false)]
  | .literal value true =>
      [.quotes (stringEscape (String.ofList (Text.lower value.toList))),
        .fails (.literal value true)]
  | .charClass k => [.tests (.charClass k), .fails (.charClass k)]
  | .any => [.fails .any]
  | .ref name _ => [.calls name]
  | .seq items => mentionsAll items
  | .choice items => mentionsAll items
  | .named name body => mentions body ++ [.fails (.other name)]

/-- What several expressions mention. -/
def mentionsAll : List Expression → List (Mention Expectation)
  | [] => []
  | e :: es => mentions e ++ mentionsAll es

end

/-- Expressions mention what each of them does. -/
theorem mentionsAll_eq_flatMap (es : List Expression) : mentionsAll es = es.flatMap mentions := by
  induction es with
  | nil => rfl
  | cons e es ih => rw [mentionsAll, ih, List.flatMap_cons]

theorem mem_mentionsAll {es : List Expression} {m : Mention Expectation} :
    m ∈ mentionsAll es ↔ ∃ e ∈ es, m ∈ e.mentions := by
  rw [mentionsAll_eq_flatMap, List.mem_flatMap]

/-- An expression fails with the expectations of its nodes. -/
theorem fails_mem_mentions_iff {e : Expression} {x : Expectation} :
    .fails x ∈ e.mentions ↔ x ∈ e.expectations := by
  induction e using induct with
  | literal value ignoreCase => cases ignoreCase <;> simp [mentions]
  | charClass k => simp [mentions]
  | any => simp [mentions]
  | ref name location => simp [mentions]
  | seq items ih =>
      rw [mentions, mem_mentionsAll, expectations_seq, List.mem_flatMap]
      exact exists_congr fun e => and_congr_right fun he => ih e he
  | choice items ih =>
      rw [mentions, mem_mentionsAll, expectations_choice, List.mem_flatMap]
      exact exists_congr fun e => and_congr_right fun he => ih e he
  | named name body ih => simp [mentions, ih, or_comm]

/-- An expression calls the rules it refers to. -/
theorem refersTo_of_calls_mem_mentions {e : Expression} {name : String}
    (h : .calls name ∈ e.mentions) : e.RefersTo name := by
  induction e using induct with
  | literal value ignoreCase => cases ignoreCase <;> simp [mentions] at h
  | charClass k => simp [mentions] at h
  | any => simp [mentions] at h
  | ref name' location =>
      obtain rfl : name = name' := by simpa [mentions] using h
      exact .ref
  | seq items ih =>
      rw [mentions, mem_mentionsAll] at h
      obtain ⟨e, he, hmem⟩ := h
      exact .seq he (ih e he hmem)
  | choice items ih =>
      rw [mentions, mem_mentionsAll] at h
      obtain ⟨e, he, hmem⟩ := h
      exact .choice he (ih e he hmem)
  | named description body ih =>
      have hbody : .calls name ∈ body.mentions := by simpa [mentions] using h
      exact .named (ih hbody)

/-- The literal that a text is compared with, if letter case is ignored or not. -/
def comparedLiteral (value : String) (ignoreCase : Bool) : String :=
  stringEscape (if ignoreCase then String.ofList (Text.lower value.toList) else value)

/-- Literals of several expressions are literals of one of them. -/
theorem quotes_mem_mentionsAll_iff {items : List Expression} {literal : String}
    (h : ∀ e ∈ items, .quotes literal ∈ e.mentions ↔ ∃ value ignoreCase,
      .literal value ignoreCase ∈ e.expectations ∧ literal = comparedLiteral value ignoreCase) :
    .quotes literal ∈ mentionsAll items ↔ ∃ value ignoreCase,
      .literal value ignoreCase ∈ items.flatMap expectations ∧
        literal = comparedLiteral value ignoreCase := by
  rw [mem_mentionsAll]
  constructor
  · rintro ⟨e, he, hmem⟩
    obtain ⟨value, ignoreCase, hliteral, rfl⟩ := (h e he).1 hmem
    exact ⟨value, ignoreCase, List.mem_flatMap.2 ⟨e, he, hliteral⟩, rfl⟩
  · rintro ⟨value, ignoreCase, hliteral, rfl⟩
    obtain ⟨e, he, hliteral⟩ := List.mem_flatMap.1 hliteral
    exact ⟨e, he, (h e he).2 ⟨value, ignoreCase, hliteral, rfl⟩⟩

/-- The string literals in the code of an expression are those of its literals. -/
theorem quotes_mem_mentions_iff {e : Expression} {literal : String} :
    .quotes literal ∈ e.mentions ↔ ∃ value ignoreCase,
      .literal value ignoreCase ∈ e.expectations ∧ literal = comparedLiteral value ignoreCase := by
  induction e using induct with
  | literal value ignoreCase => cases ignoreCase <;> simp [mentions, comparedLiteral]
  | charClass k => simp [mentions]
  | any => simp [mentions]
  | ref name location => simp [mentions]
  | seq items ih =>
      rw [mentions, expectations_seq]
      exact quotes_mem_mentionsAll_iff ih
  | choice items ih =>
      rw [mentions, expectations_choice]
      exact quotes_mem_mentionsAll_iff ih
  | named name body ih => simp [mentions, ih]

end Expression

namespace Js

/-! ## Code mentions what its expression does -/

/-- The mentions in code are those of an expression, where the constants are numbers of expectations
in the pool. -/
def Names (pool : OrderedSet Expectation) (numbered : List (Mention Nat))
    (mentions : List (Mention Expectation)) : Prop :=
  numbered.map (Mention.map (pool.toList[·]?)) = mentions.map (Mention.map some)

namespace Names

variable {pool : OrderedSet Expectation} {numbered numbered' : List (Mention Nat)}
  {mentions mentions' : List (Mention Expectation)} {e : Expectation} {n : Nat}

theorem nil (pool : OrderedSet Expectation) : Names pool [] [] := rfl

/-- Mentions one after the other are named one after the other. -/
theorem append (h : Names pool numbered mentions) (h' : Names pool numbered' mentions') :
    Names pool (numbered ++ numbered') (mentions ++ mentions') := by
  rw [Names, List.map_append, List.map_append, h, h']

theorem quotes (pool : OrderedSet Expectation) (literal : String) :
    Names pool [.quotes literal] [.quotes literal] := rfl

theorem calls (pool : OrderedSet Expectation) (name : String) :
    Names pool [.calls name] [.calls name] := rfl

/-- The constant of an expectation names it in a failure. -/
theorem fails (he : pool.indexOf? e = some n) : Names pool [.fails n] [.fails e] := by
  simp [Names, Mention.map, OrderedSet.getElem?_of_indexOf? he]

/-- And in a test. -/
theorem tests (he : pool.indexOf? e = some n) : Names pool [.tests n] [.tests e] := by
  simp [Names, Mention.map, OrderedSet.getElem?_of_indexOf? he]

/-- What is mentioned in the code is mentioned in the expression. -/
theorem exists_mem (h : Names pool numbered mentions) {m : Mention Nat} (hm : m ∈ numbered) :
    ∃ m' ∈ mentions, m'.map some = m.map (pool.toList[·]?) := by
  have hmem : m.map (pool.toList[·]?) ∈ mentions.map (Mention.map some) := by
    rw [← h]
    exact List.mem_map_of_mem hm
  exact List.mem_map.1 hmem

/-- What is mentioned in the expression is mentioned in the code. -/
theorem exists_mem_numbered (h : Names pool numbered mentions) {m : Mention Expectation}
    (hm : m ∈ mentions) : ∃ m' ∈ numbered, m'.map (pool.toList[·]?) = m.map some := by
  have hmem : m.map some ∈ numbered.map (Mention.map (pool.toList[·]?)) := by
    rw [h]
    exact List.mem_map_of_mem hm
  exact List.mem_map.1 hmem

/-- What is called in the code is called in the expression. -/
theorem calls_mem (h : Names pool numbered mentions) {name : String}
    (hname : .calls name ∈ numbered) : .calls name ∈ mentions := by
  obtain ⟨m, hm, heq⟩ := h.exists_mem hname
  cases m <;> cases heq
  exact hm

/-- The string literals are the same. -/
theorem quotes_mem_iff (h : Names pool numbered mentions) {literal : String} :
    .quotes literal ∈ numbered ↔ .quotes literal ∈ mentions := by
  constructor
  · intro hliteral
    obtain ⟨m, hm, heq⟩ := h.exists_mem hliteral
    cases m <;> cases heq
    exact hm
  · intro hliteral
    obtain ⟨m, hm, heq⟩ := h.exists_mem_numbered hliteral
    cases m <;> cases heq
    exact hm

/-- A failure of the expression is one of the code. -/
theorem exists_fails (h : Names pool numbered mentions) (he : .fails e ∈ mentions) :
    ∃ n, .fails n ∈ numbered ∧ pool.toList[n]? = some e := by
  obtain ⟨m, hm, heq⟩ := h.exists_mem_numbered he
  cases m with
  | quotes => cases heq
  | calls => cases heq
  | tests => cases heq
  | fails n => exact ⟨n, hm, Mention.fails.inj heq⟩

end Names

section Shapes

variable {pool : OrderedSet Expectation}

/-- A leaf mentions what its test and its value do, and its constant. -/
theorem mentionsAll_leafCode (target constant : Nat) (test : Test) (value : Expr) {move : Stmt}
    (hmove : move.mentions = []) :
    Stmt.mentionsAll (leafCode target constant test value move) =
      test.mentions ++ (value.mentions ++ [.fails constant]) := by
  show test.mentions ++ (value.mentions ++ (move.mentions ++ []) ++ [.fails constant]) ++ [] = _
  rw [hmove, List.append_nil, List.append_nil, List.append_nil]

/-- The statements between the items mention nothing. -/
theorem names_itemsCode {es : List Expression}
    (h : ∀ e ∈ es, ∀ {target n n' code}, (expressionCode pool target e).run n = .ok (code, n') →
      Names pool (Stmt.mentionsAll code) e.mentions)
    {target saved n n' : Nat} {done : List Nat} {code : List Stmt}
    (hcode : (itemsCode pool target saved done es).run n = .ok (code, n')) :
    Names pool (Stmt.mentionsAll code) (Expression.mentionsAll es) := by
  induction es generalizing done n code with
  | nil =>
      obtain ⟨rfl, -⟩ := itemsCode_nil_iff.1 hcode
      exact .nil pool
  | cons e es ih =>
      obtain ⟨first, m, rest, hfirst, hrest, rfl⟩ := itemsCode_cons_iff.1 hcode
      have hnames := (h e (.head _) hfirst).append (ih (fun e he => h e (.tail _ he)) hrest)
      simpa [Stmt.mentionsAll, Stmt.mentions, Test.mentions, Expr.mentions, giveUp,
        Expression.mentionsAll] using hnames

/-- Nor do the branches around the alternatives. -/
theorem names_alternativesCode {es : List Expression}
    (h : ∀ e ∈ es, ∀ {target n n' code}, (expressionCode pool target e).run n = .ok (code, n') →
      Names pool (Stmt.mentionsAll code) e.mentions)
    {target n n' : Nat} {code : List Stmt}
    (hcode : (alternativesCode pool target es).run n = .ok (code, n')) :
    Names pool (Stmt.mentionsAll code) (Expression.mentionsAll es) := by
  induction es generalizing n code with
  | nil =>
      obtain ⟨rfl, -⟩ := alternativesCode_nil_iff.1 hcode
      exact .nil pool
  | cons e es ih =>
      obtain ⟨first, m, rest, hfirst, hrest, rfl⟩ := alternativesCode_cons_iff.1 hcode
      have hnames := (h e (.head _) hfirst).append (ih (fun e he => h e (.tail _ he)) hrest)
      simpa [Stmt.mentionsAll, Stmt.mentions, Test.mentions, Expression.mentionsAll] using hnames

/-- The code of an expression mentions what the expression does, in the same order. -/
theorem names_expressionCode {e : Expression} {target n n' : Nat} {code : List Stmt}
    (hcode : (expressionCode pool target e).run n = .ok (code, n')) :
    Names pool (Stmt.mentionsAll code) e.mentions := by
  induction e using Expression.induct generalizing target n code n' with
  | literal value ignoreCase =>
      cases ignoreCase with
      | false =>
          obtain ⟨c, hc, rfl, -⟩ := expressionCode_literal_iff.1 hcode
          rw [mentionsAll_leafCode _ _ _ _ rfl]
          exact (Names.quotes pool _).append ((Names.quotes pool _).append (.fails hc))
      | true =>
          obtain ⟨c, hc, rfl, -⟩ := expressionCode_literalIgnoringCase_iff.1 hcode
          rw [mentionsAll_leafCode _ _ _ _ rfl]
          exact (Names.quotes pool _).append (.fails hc)
  | charClass k =>
      obtain ⟨c, hc, rfl, -⟩ := expressionCode_charClass_iff.1 hcode
      rw [mentionsAll_leafCode _ _ _ _ rfl]
      exact (Names.tests hc).append (.fails hc)
  | any =>
      obtain ⟨c, hc, rfl, -⟩ := expressionCode_any_iff.1 hcode
      rw [mentionsAll_leafCode _ _ _ _ rfl]
      exact .fails hc
  | ref name location =>
      obtain ⟨rfl, -⟩ := expressionCode_ref_iff.1 hcode
      exact .calls pool name
  | seq items ih =>
      cases items with
      | nil =>
          obtain ⟨rfl, -⟩ := expressionCode_seq_nil_iff.1 hcode
          exact .nil pool
      | cons e es =>
          obtain ⟨code, hitems, rfl⟩ := expressionCode_seq_cons_iff.1 hcode
          have hnames := names_itemsCode ih hitems
          exact hnames
  | choice items ih =>
      cases items with
      | nil =>
          obtain ⟨rfl, -⟩ := expressionCode_choice_nil_iff.1 hcode
          exact .nil pool
      | cons e es =>
          obtain ⟨first, m, rest, hfirst, hrest, rfl⟩ := expressionCode_choice_cons_iff.1 hcode
          rw [Stmt.mentionsAll_append]
          exact (ih e (.head _) hfirst).append
            (names_alternativesCode (fun e he => ih e (.tail _ he)) hrest)
  | named name body ih =>
      obtain ⟨inner, c, hbody, hc, rfl⟩ := expressionCode_named_iff.1 hcode
      have hnames := (ih hbody).append (.fails hc)
      simpa [Stmt.mentionsAll, Stmt.mentions, Test.mentions, reportFailure, Expression.mentions]
        using hnames

end Shapes

end Js

end PegGen
