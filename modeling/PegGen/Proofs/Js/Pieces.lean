import PegGen.Proofs.Js.Declarations
import PegGen.Proofs.Js.Mentions

/-!
# The pieces of a parser module

A parser module is a long list of operations, most of them the same in every module.  What differs
is read by `Piece.read?`: the table of start rules and the rule to start from by default, the
declarations of constants, the rule functions, and the constant that the entry point fails with.

`filterMap_read?_ops` reads all the code of a module and finds these pieces, in order, and no
others.  What is said about the module later is said about them.
-/

namespace PegGen.Js

open Code (Op)
open Text

/-! ## Reading a piece -/

/-- A part of a module that depends on its grammar. -/
inductive Piece where
  /-- The table of start rules is declared, as an object literal. -/
  | startTable (object : String)
  /-- The rule to start from by default is declared. -/
  | startDefault (rule : String)
  /-- A constant is declared. -/
  | constant (n : Nat) (declaration : String)
  /-- There is a rule function. -/
  | routine (r : Routine)
  /-- Outside of rule functions a failure is reported with a constant. -/
  | failure (constant : Nat)

namespace Piece

/-- The pieces of one line by how they begin. -/
def table : List (String × (List Char → Option Piece)) :=
  [("const peg$startRuleFunctions = ", fun s =>
      (upTo ";" s).map fun t => .startTable (String.ofList t)),
    ("let peg$startRuleFunction = peg$parse", fun s =>
      (upTo ";" s).map fun t => .startDefault (String.ofList t)),
    ("const peg$e", fun s => (number? s).bind fun (n, rest) =>
      (rest.dropPrefix? " = ".toList).bind fun t =>
        (upTo ";" t).map fun u => .constant n (String.ofList u)),
    ("peg$fail(peg$e", fun s => (numberUpTo ");" s).map .failure)]

/-- The piece that an operation spells. -/
def read? : Op → Option Piece
  | .line text => readMarked table text.toList
  | .embed ops => (Routine.read? ops).map .routine
  | .template _ | .opening _ | .otherwise | .closing _ => none

/-- At most one piece begins as a line does. -/
theorem pairwise_table : (table.map fun entry => entry.1.toList).Pairwise Apart := by
  decide

/-- A line is no piece if what it begins with is apart from all the marks. -/
theorem read?_line_eq_none {front : String}
    (h : ∀ entry ∈ table, Apart front.toList entry.1.toList) (rest : String) :
    read? (.line (front ++ rest)) = none := by
  rw [read?, readMarked, List.findSome?_eq_none_iff]
  intro entry hentry
  rw [String.toList_append, dropPrefix?_of_apart (h entry hentry), Option.bind_none]

/-- All pieces begin with one of three letters, so a line that begins otherwise is none. -/
theorem read?_line_of_head {text : String} {c : Char} (h : text.toList.head? = some c)
    (hc : c ∉ ['c', 'l', 'p']) : read? (.line text) = none := by
  have hmarks : ∀ entry ∈ table, ∃ d ∈ ['c', 'l', 'p'], entry.1.toList.head? = some d := by
    simp [table]
  rw [read?, readMarked, List.findSome?_eq_none_iff]
  intro entry hentry
  obtain ⟨d, hd, hmark⟩ := hmarks entry hentry
  have hnone : text.toList.dropPrefix? entry.1.toList = none := by
    rw [Option.eq_none_iff_forall_ne_some]
    intro rest hrest
    obtain ⟨front, heq, hfront⟩ := List.dropPrefix?_eq_some_iff.1 hrest
    rw [heq, eq_of_beq hfront, List.head?_append, hmark, Option.some_or, Option.some.injEq] at h
    exact hc (h ▸ hd)
  rw [hnone, Option.bind_none]

theorem read?_blank : read? (.line "") = none := by
  decide

/-- A return is no piece. -/
theorem read?_return (value : String) : read? (.line ("return " ++ value ++ ";")) = none :=
  read?_line_of_head (c := 'r') (by simp) (by simp)

/-- An assignment is no piece, unless its target begins as one. -/
theorem read?_set {name : String} {c : Char} (h : name.toList.head? = some c)
    (hc : c ∉ ['c', 'l', 'p']) (value : String) :
    read? (.line ((Fragment.mk name).set value)) = none :=
  read?_line_of_head (by simp [Fragment.set, h]) hc

/-- The declaration of a constant tells its number and what it is declared as. -/
theorem read?_constantOp (n : Nat) (e : Expectation) :
    read? (constantOp n e) = some (.constant n (expectationDeclaration e)) := by
  have hline : (constDecl (constantName n).text (expectationDeclaration e)).toList =
      "const peg$e".toList ++ ((toString n).toList ++
        (" = ".toList ++ ((expectationDeclaration e).toList ++ ";".toList))) := by
    simp [constDecl, constantName]
  rw [constantOp, read?, hline, readMarked_append pairwise_table 2 rfl,
    number?_append n (by simp), Option.bind_some]
  dsimp only
  rw [dropPrefix?_append, Option.bind_some, upTo_append]
  simp

/-- The table of start rules is read as it stands. -/
theorem read?_startTable (object : String) :
    read? (.line (constDecl "peg$startRuleFunctions" object)) = some (.startTable object) := by
  have hline : (constDecl "peg$startRuleFunctions" object).toList =
      "const peg$startRuleFunctions = ".toList ++ (object.toList ++ ";".toList) := by
    simp [constDecl]
  rw [read?, hline, readMarked_append pairwise_table 0 rfl, upTo_append]
  simp

/-- The declaration of the start function tells its rule. -/
theorem read?_startDefault (rule : String) :
    read? (.line (letDecl "peg$startRuleFunction" (some (ruleFunctionName rule).text))) =
      some (.startDefault rule) := by
  have hline : (letDecl "peg$startRuleFunction" (some (ruleFunctionName rule).text)).toList =
      "let peg$startRuleFunction = peg$parse".toList ++ (rule.toList ++ ";".toList) := by
    simp [letDecl, ruleFunctionName]
  rw [read?, hline, readMarked_append pairwise_table 1 rfl, upTo_append]
  simp

/-- A report of a failure tells its constant. -/
theorem read?_failure (n : Nat) :
    read? (.line (failName.call [(constantName n).text]).stmt) = some (.failure n) := by
  have hline : (failName.call [(constantName n).text]).stmt.toList =
      "peg$fail(peg$e".toList ++ ((toString n).toList ++ ");".toList) := by
    simp [failName, constantName, Fragment.call, Fragment.stmt]
  rw [read?, hline, readMarked_append pairwise_table 3 rfl, numberUpTo_append n rfl]
  rfl

end Piece

/-! ## The pieces of a module -/

open Piece

theorem filterMap_headerOps (header : Option String) :
    (headerOps header).filterMap read? = [] := by
  cases header with
  | none =>
      have hdefault : read? (.line defaultHeader) = none :=
        read?_line_of_head (c := '/') (by simp [defaultHeader]) (by simp)
      rw [headerOps, List.filterMap_cons_none hdefault]
      exact List.filterMap_cons_none read?_blank
  | some header =>
      exact (List.filterMap_cons_none rfl).trans (List.filterMap_cons_none read?_blank)

theorem filterMap_openingOps (format : Format) : (openingOps format).filterMap read? = [] := by
  cases format <;> rfl

theorem filterMap_strictOps (format : Format) : (strictOps format).filterMap read? = [] := by
  rw [strictOps]
  split
  · rfl
  · have hstrict : read? (.line "\"use strict\";") = none :=
      read?_line_of_head (c := '"') (by simp) (by simp)
    rw [List.filterMap_cons_none hstrict]
    exact List.filterMap_cons_none read?_blank

theorem filterMap_constructorOps (kind : Expectation.Kind) :
    (constructorOps kind).filterMap read? = [] := by
  rw [constructorOps, List.filterMap_cons_none rfl, List.filterMap_cons_none (read?_return _),
    List.filterMap_cons_none rfl]
  exact List.filterMap_cons_none read?_blank

theorem filterMap_tracerOps (trace : Bool) : (tracerOps trace).filterMap read? = [] := by
  cases trace
  · rfl
  · exact (List.filterMap_cons_none rfl).trans (List.filterMap_cons_none read?_blank)

theorem filterMap_stateOps (trace : Bool) : (stateOps trace).filterMap read? = [] := by
  cases trace <;> decide

theorem filterMap_startChoiceOps : startChoiceOps.filterMap read? = [] := by
  decide

theorem filterMap_allowedOps (startRules : List String) :
    (allowedOps startRules).filterMap read? = [] := by
  have hline : ∀ list, read? (.line (constDecl "peg$allowedStartRules" list)) = none := by
    intro list
    rw [constDecl, String.append_assoc]
    exact read?_line_eq_none (by decide) _
  rw [allowedOps, List.filterMap_cons_none (hline _), List.filterMap_cons_none read?_blank,
    List.filterMap_nil]

/-- What the module exports is no piece, in any format. -/
theorem filterMap_closingOps (format : Format) (trace : Bool) :
    (closingOps format trace).filterMap read? = [] := by
  cases format with
  | bare => exact List.filterMap_cons_none (read?_return _)
  | globals name =>
      exact List.filterMap_cons_none (read?_set (c := 'r') (by simp) (by simp) _)
  | commonJs =>
      exact List.filterMap_cons_none (read?_set (c := 'm') (by simp) (by simp) _)
  | es =>
      have hexport : ∀ object, read? (.line ("export " ++ object ++ ";")) = none :=
        fun object => read?_line_of_head (c := 'e') (by simp) (by simp)
      exact List.filterMap_cons_none (hexport _)

/-- The entry of a rule in the table of start rules. -/
def startEntry (rule : String) : String :=
  stringLiteral rule ++ ": " ++ (ruleFunctionName rule).text

/-- The table of some start rules, as an object literal. -/
def startTable (names : List String) : String :=
  objectLiteral (names.map startEntry)

/-- An entry of the table ends where its function name does, which is that of the rule in front. -/
theorem prefixFree_startEntry : PrefixFree fun rule => (startEntry rule).toList := by
  intro rule rule' s t h
  simp only [startEntry, ruleFunctionName, String.toList_append, List.append_assoc] at h
  obtain ⟨rfl, hrest⟩ := prefixFree_stringLiteral h
  exact ⟨rfl, List.append_cancel_left (List.append_cancel_left (List.append_cancel_left hrest))⟩

/-- A table has one list of rules, whatever their names are. -/
theorem startTable_injective : Function.Injective startTable := by
  intro names names' h
  have hsep : ", ".toList = ',' :: " ".toList := by decide
  have hbegins : NeverBegins (fun rule => (startEntry rule).toList) ' ' := by
    intro rule
    refine ⟨'"', literalRest rule.toList ++ (": " ++ (ruleFunctionName rule).text).toList, ?_,
      by decide⟩
    simp [startEntry, toList_stringLiteral]
  have htable : ∀ names, (startTable names).toList = "\x7b ".toList ++
      ((joinWith ", " (names.map startEntry)).toList ++ [' '] ++ ['\x7d']) := by
    intro names
    simp [startTable, objectLiteral]
  have hlists := congrArg String.toList h
  rw [htable, htable] at hlists
  exact (prefixFree_startEntry.joined hsep (by decide) hbegins
    (List.append_cancel_left hlists)).1

/-- The table and the start function are pieces, the other declarations are not. -/
theorem filterMap_startTableOps (startRules : List String) (first : String) :
    (startTableOps startRules first).filterMap read? =
      [.startTable (startTable startRules), .startDefault first] := by
  have hoptions : ∀ value, read? (.line ((Fragment.mk "options").set value)) = none :=
    read?_set (c := 'o') (by simp) (by simp)
  have hfailed : read? (.line (constDecl failureName.text "\x7b\x7d")) = none := by decide
  rw [startTableOps, List.filterMap_cons_none (hoptions _), List.filterMap_cons_none read?_blank,
    List.filterMap_cons_none hfailed, List.filterMap_cons_some (read?_startTable _),
    List.filterMap_cons_some (read?_startDefault _), List.filterMap_cons_none read?_blank,
    List.filterMap_nil]
  rfl

/-- There is a piece for each constant. -/
theorem filterMap_constantOps (pool : OrderedSet Expectation) :
    (constantOps pool).filterMap read? =
      pool.toList.mapIdx fun n e => Piece.constant n (expectationDeclaration e) := by
  rw [constantOps, List.filterMap_append, List.filterMap_cons_none read?_blank, List.filterMap_nil,
    List.append_nil, List.mapIdx_eq_zipIdx_map, List.mapIdx_eq_zipIdx_map, List.filterMap_map]
  rw [← List.filterMap_eq_map]
  refine List.filterMap_congr fun entry _ => ?_
  rw [Function.comp_apply, read?_constantOp]
  rfl

/-- There is a piece for each rule function. -/
theorem filterMap_functionOps {trace : Bool} {functions : List RuleFunction}
    {routines : List Routine}
    (h : (functions.map (·.ops trace)).mapM Routine.read? = some routines) :
    (functionOps trace functions).filterMap read? = routines.map .routine := by
  induction functions generalizing routines with
  | nil =>
      cases h
      rfl
  | cons f functions ih =>
      rw [List.map_cons, List.mapM_cons] at h
      obtain ⟨r, hr, h⟩ := Option.bind_eq_some_iff.1 h
      obtain ⟨rest, hrest, h⟩ := Option.bind_eq_some_iff.1 h
      cases h
      have hpiece : read? (.embed (f.ops trace)) = some (.routine r) := by
        rw [read?, hr, Option.map_some]
      rw [functionOps, List.flatMap_cons, List.cons_append, List.filterMap_cons_none read?_blank,
        List.cons_append, List.filterMap_cons_some hpiece, List.nil_append, List.map_cons]
      exact congrArg _ (ih hrest)

/-- The entry point fails once. -/
theorem filterMap_entryOps (endConstant : Nat) :
    (entryOps endConstant).filterMap read? = [.failure endConstant] := by
  have hrun : read? (.line ((Fragment.mk "peg$result").set
      ((Fragment.mk "peg$startRuleFunction").call []).text)) = none := by decide
  rw [entryOps, List.filterMap_cons_none read?_blank, List.filterMap_cons_none hrun,
    List.filterMap_cons_none read?_blank, List.filterMap_cons_none rfl,
    List.filterMap_cons_none (read?_return _), List.filterMap_cons_none rfl,
    List.filterMap_cons_none rfl, List.filterMap_cons_some (read?_failure _),
    List.filterMap_cons_none rfl, List.filterMap_cons_none read?_blank,
    List.filterMap_cons_none rfl, List.filterMap_nil]

/-- All pieces are inside of the parse function. -/
theorem filterMap_parseOps {p : ParserModule} {routines : List Routine}
    (h : (p.functions.map (·.ops p.options.trace)).mapM Routine.read? = some routines) :
    p.parseOps.filterMap read? =
      .startTable (startTable p.options.startRules) :: .startDefault p.first ::
        ((p.pool.toList.mapIdx fun n e => Piece.constant n (expectationDeclaration e)) ++
          (routines.map .routine ++ [.failure p.endConstant])) := by
  have hhelpers : ∀ ops,
      (fixedPart Template.helpers :: ops).filterMap read? = ops.filterMap read? :=
    fun ops => List.filterMap_cons_none rfl
  have hclose : [Op.close, .line ""].filterMap read? = [] :=
    (List.filterMap_cons_none rfl).trans (List.filterMap_cons_none read?_blank)
  rw [ParserModule.parseOps, List.cons_append, List.cons_append, List.cons_append,
    List.cons_append, List.cons_append, List.cons_append, List.cons_append,
    List.filterMap_cons_none rfl]
  simp only [List.filterMap_append, filterMap_startTableOps, filterMap_constantOps,
    filterMap_stateOps, filterMap_startChoiceOps, hhelpers, filterMap_functionOps h,
    filterMap_entryOps, hclose, List.append_nil, List.cons_append, List.nil_append,
    List.append_assoc]

/-- All that differs between modules. -/
theorem filterMap_read?_ops {p : ParserModule} {routines : List Routine}
    (h : (p.functions.map (·.ops p.options.trace)).mapM Routine.read? = some routines) :
    p.ops.filterMap read? =
      .startTable (startTable p.options.startRules) :: .startDefault p.first ::
        ((p.pool.toList.mapIdx fun n e => Piece.constant n (expectationDeclaration e)) ++
          (routines.map .routine ++ [.failure p.endConstant])) := by
  have herror : [fixedPart Template.syntaxError, Op.line ""].filterMap read? = [] :=
    (List.filterMap_cons_none rfl).trans (List.filterMap_cons_none read?_blank)
  have hconstructors : (Expectation.Kind.all.flatMap constructorOps).filterMap read? = [] := by
    rw [List.filterMap_flatMap, List.flatMap_eq_nil_iff]
    exact fun kind _ => filterMap_constructorOps kind
  simp only [ParserModule.ops, List.filterMap_append, filterMap_headerOps, filterMap_openingOps,
    filterMap_strictOps, herror, hconstructors, filterMap_tracerOps, filterMap_allowedOps,
    filterMap_parseOps h, filterMap_closingOps, List.append_nil, List.nil_append]

end PegGen.Js
