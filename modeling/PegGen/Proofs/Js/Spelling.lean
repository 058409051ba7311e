import Mathlib.Data.List.Basic
import PegGen.Proofs.Js.Statement

/-!
# Reading statements back

What the operations of a code buffer spell.  A line, or the head of a block, is read by the mark it
begins with: `readMarked` looks the mark up in a table, and the rest of the text is read by what the
table says.  No mark of a table begins another one, so at most one entry applies.

Blocks are read with the branches that are open (`BlockReader.step`).  A brace closes the innermost
branch, and the statements read since then are those of its last case.

Nothing is lost on the way: code that was written is read as it was (`Stmt.read?_opsAll`,
`Routine.read?_ops`).
-/

namespace PegGen.Js

open Code (Op)

/-! ## Texts -/

section Texts

variable {α : Type}

/-- Neither text begins with the other. -/
def Apart (s t : List Char) : Prop :=
  ¬ s <+: t ∧ ¬ t <+: s

instance (s t : List Char) : Decidable (Apart s t) :=
  inferInstanceAs (Decidable (_ ∧ _))

theorem Apart.symm {s t : List Char} (h : Apart s t) : Apart t s :=
  And.symm h

/-- Read what follows a mark, by the first entry of the table whose mark is in front. -/
def readMarked (table : List (String × (List Char → Option α))) (s : List Char) : Option α :=
  table.findSome? fun entry => (s.dropPrefix? entry.1.toList).bind entry.2

/-- The text is over. -/
def atEnd (a : α) (s : List Char) : Option α :=
  if s = [] then some a else none

/-- What stands in front of the end of a text. -/
def upTo (close : String) (s : List Char) : Option (List Char) :=
  s.dropSuffix? close.toList

/-- The numeral in front of a text, and what follows it. -/
def number? (s : List Char) : Option (Nat × List Char) :=
  let digits := s.takeWhile Char.isDigit
  let n := Nat.ofDigitChars 10 digits 0
  if (toString n).toList = digits then some (n, s.dropWhile Char.isDigit) else none

/-- The number that a text consists of, before its end. -/
def numberUpTo (close : String) (s : List Char) : Option Nat :=
  (number? s).bind fun (n, rest) => if rest = close.toList then some n else none

/-- A register. -/
def register? (s : List Char) : Option Nat :=
  (s.dropPrefix? ['s']).bind (numberUpTo "")

/-- Registers with commas and blanks between them. -/
def registers? (s : List Char) : Option (List Nat) :=
  if s = [] then some []
  else
    match s.splitOn ',' with
    | [] => none
    | first :: rest => do
        let n ← register? first
        let ns ← rest.mapM fun t => (t.dropPrefix? [' ']).bind register?
        return n :: ns

/-- A mark is taken away from in front. -/
theorem dropPrefix?_append (mark s : List Char) : (mark ++ s).dropPrefix? mark = some s :=
  List.dropPrefix?_append_of_beq s (beq_self_eq_true mark)

/-- Behind one mark there is no other. -/
theorem dropPrefix?_of_apart {mark mark' : List Char} (h : Apart mark mark') (s : List Char) :
    (mark ++ s).dropPrefix? mark' = none := by
  rw [Option.eq_none_iff_forall_ne_some]
  intro rest hrest
  obtain ⟨front, heq, hfront⟩ := List.dropPrefix?_eq_some_iff.1 hrest
  have hprefix : mark' <+: mark ++ s := ⟨rest, by rw [heq, eq_of_beq hfront]⟩
  rcases List.prefix_or_prefix_of_prefix hprefix (List.prefix_append mark s) with hle | hle
  · exact h.2 hle
  · exact h.1 hle

/-- The entry whose mark is in front is the one that is used. -/
theorem readMarked_append_of_mem {table : List (String × (List Char → Option α))}
    (htable : (table.map fun entry => entry.1.toList).Pairwise Apart) {mark : String}
    {read : List Char → Option α} (h : (mark, read) ∈ table) (s : List Char) :
    readMarked table (mark.toList ++ s) = read s := by
  induction table with
  | nil => cases h
  | cons entry table ih =>
      obtain ⟨hapart, htable⟩ := List.pairwise_cons.1 htable
      rw [readMarked, List.findSome?_cons]
      rcases List.mem_cons.1 h with rfl | hlater
      · have hothers : readMarked table (mark.toList ++ s) = none := by
          refine List.findSome?_eq_none_iff.2 fun entry hentry => ?_
          rw [dropPrefix?_of_apart (hapart _ (List.mem_map_of_mem hentry)), Option.bind_none]
        rw [readMarked] at hothers
        dsimp only
        rw [hothers, dropPrefix?_append, Option.bind_some]
        cases read s <;> rfl
      · have hbehind : Apart mark.toList entry.1.toList :=
          (hapart _ (List.mem_map_of_mem hlater)).symm
        rw [dropPrefix?_of_apart hbehind, Option.bind_none]
        exact ih htable hlater

/-- The same with the entry given by its place. -/
theorem readMarked_append {table : List (String × (List Char → Option α))}
    (htable : (table.map fun entry => entry.1.toList).Pairwise Apart) (i : Nat) {mark : String}
    {read : List Char → Option α} (h : table[i]? = some (mark, read)) (s : List Char) :
    readMarked table (mark.toList ++ s) = read s :=
  readMarked_append_of_mem htable (List.mem_of_getElem? h) s

/-- An end is taken away from behind. -/
theorem upTo_append (close : String) (s : List Char) : upTo close (s ++ close.toList) = some s :=
  List.dropSuffix?_eq_some_iff.2 ⟨_, rfl, beq_self_eq_true _⟩

theorem isDigit_of_mem_toString {n : Nat} {c : Char} (hc : c ∈ (toString n).toList) :
    c.isDigit := by
  have hdigits : (toString n).toList = Nat.toDigits 10 n := Nat.toList_repr
  rw [hdigits] at hc
  exact Nat.isDigit_of_mem_toDigits (by decide) (by decide) hc

/-- A text that begins with something else than a digit still does with more behind it. -/
theorem all_head?_append {mark : List Char} (h : mark.head?.any fun c => !c.isDigit)
    (s : List Char) : (mark ++ s).head?.all fun c => !c.isDigit := by
  cases mark with
  | nil => cases h
  | cons c mark => exact h

/-- A numeral is over where no digit follows. -/
theorem number?_append (n : Nat) {s : List Char} (hs : s.head?.all fun c => !c.isDigit) :
    number? ((toString n).toList ++ s) = some (n, s) := by
  have hfront : ∀ c ∈ (toString n).toList, c.isDigit := fun c => isDigit_of_mem_toString
  have hrest : s.takeWhile Char.isDigit = [] ∧ s.dropWhile Char.isDigit = s := by
    cases s with
    | nil => exact ⟨rfl, rfl⟩
    | cons c s =>
        have hc : c.isDigit = false := by simpa using hs
        exact ⟨List.takeWhile_cons_of_neg (by simp [hc]), List.dropWhile_cons_of_neg (by simp [hc])⟩
  have hvalue : Nat.ofDigitChars 10 (toString n).toList 0 = n := by
    have hdigits : (toString n).toList = Nat.toDigits 10 n := Nat.toList_repr
    rw [hdigits, Nat.ofDigitChars_ten_toDigits]
  rw [number?, List.takeWhile_append_of_pos hfront, List.dropWhile_append_of_pos hfront, hrest.1,
    hrest.2, List.append_nil]
  simp only [hvalue, if_true]

/-- A number is read from its digits if the end is no digit. -/
theorem numberUpTo_append (n : Nat) {close : String}
    (hclose : close.toList.head?.all fun c => !c.isDigit) :
    numberUpTo close ((toString n).toList ++ close.toList) = some n := by
  rw [numberUpTo, number?_append n hclose]
  simp

theorem numberUpTo_toString (n : Nat) : numberUpTo "" (toString n).toList = some n := by
  have happend : numberUpTo "" ((toString n).toList ++ "".toList) = some n :=
    numberUpTo_append n rfl
  rwa [String.toList_empty, List.append_nil] at happend

theorem toList_registerName (n : Nat) :
    (registerName n).text.toList = 's' :: (toString n).toList := by
  rw [registerName, String.toList_append]
  rfl

/-- A register is read from its name. -/
theorem register?_registerName (n : Nat) :
    register? (registerName n).text.toList = some n := by
  rw [toList_registerName, register?, ← List.singleton_append, dropPrefix?_append,
    Option.bind_some, numberUpTo_toString]

/-- Names of registers can be separated by commas. -/
theorem comma_notMem_registerName (n : Nat) : ',' ∉ (registerName n).text.toList := by
  rw [toList_registerName, List.mem_cons]
  rintro (h | h)
  · cases h
  · have hdigit := isDigit_of_mem_toString h
    simp [Char.isDigit] at hdigit

/-- A list is cut at its commas. -/
theorem splitOn_comma {first : List Char} (hfirst : ',' ∉ first) (rest : List (List Char))
    (hrest : ∀ t ∈ rest, ',' ∉ t) :
    (first ++ rest.flatMap fun t => ',' :: ' ' :: t).splitOn ',' =
      first :: rest.map (' ' :: ·) := by
  induction rest generalizing first with
  | nil => simp [List.splitOn_eq_singleton hfirst]
  | cons t rest ih =>
      rw [List.flatMap_cons, List.cons_append, List.splitOn_append_cons_self_of_not_mem hfirst, ih]
      · rfl
      · simp [hrest t (.head _)]
      · exact fun t ht => hrest t (.tail _ ht)

theorem mapM_register? (ns : List Nat) :
    (ns.map fun n => ' ' :: (registerName n).text.toList).mapM
      (fun t => (t.dropPrefix? [' ']).bind register?) = some ns := by
  induction ns with
  | nil => rfl
  | cons n ns ih =>
      rw [List.map_cons, List.mapM_cons, ← List.singleton_append, dropPrefix?_append,
        Option.bind_some, register?_registerName, ih]
      rfl

/-- Registers are read from their names with commas between them. -/
theorem registers?_joinWith (ns : List Nat) :
    registers? (Text.joinWith ", " (ns.map fun n => (registerName n).text)).toList = some ns := by
  cases ns with
  | nil => rfl
  | cons n ns =>
      have hsplit := splitOn_comma (comma_notMem_registerName n)
        (ns.map fun n => (registerName n).text.toList) (by
          simp [comma_notMem_registerName])
      have hjoin : (Text.joinWith ", " ((n :: ns).map fun n => (registerName n).text)).toList =
          (registerName n).text.toList ++
            (ns.map fun n => (registerName n).text.toList).flatMap fun t => ',' :: ' ' :: t := by
        simp [Text.toList_joinWith_cons, List.flatMap_map]
      have hne : (registerName n).text.toList ≠ [] := by simp [toList_registerName]
      rw [hjoin, registers?, if_neg (by simp [hne]), hsplit, List.map_map]
      dsimp only [Function.comp_def]
      rw [register?_registerName, mapM_register?]
      rfl

end Texts

/-! ## Lines -/

/-- The values by how they begin. -/
def Expr.table : List (String × (List Char → Option Expr)) :=
  [("peg$currPos", fun s =>
      if s = [] then some .position
      else ((s.dropPrefix? " + ".toList).bind (numberUpTo "")).map .positionPlus),
    ("s", fun s => (numberUpTo "" s).map .register),
    ("peg$FAILED", atEnd .failure),
    ("\"", fun s => (upTo "\"" s).map fun t => .quoted (String.ofList t)),
    ("input.substr(peg$currPos, ", fun s => (numberUpTo ")" s).map .slice),
    ("input.charAt(peg$currPos)", atEnd .char),
    ("[", fun s => ((upTo "]" s).bind registers?).map .array),
    ("peg$parse", fun s => (upTo "()" s).map fun t => .invoke (String.ofList t))]

/-- The value that a text spells. -/
def Expr.read? : List Char → Option Expr :=
  readMarked table

/-- The comparisons of a number of units of the input, by how they go on behind the number. -/
def Test.sliceTable (units : Nat) : List (String × (List Char → Option Test)) :=
  [(") === \"", fun s => (upTo "\"" s).map fun t => .sliceIs units (String.ofList t)),
    (").toLowerCase() === \"", fun s =>
      (upTo "\"" s).map fun t => .lowerSliceIs units (String.ofList t))]

/-- The questions about a register, by how they go on behind its name. -/
def Test.registerTable (register : Nat) : List (String × (List Char → Option Test)) :=
  [(" === peg$FAILED", atEnd (.failed register)), (" !== peg$FAILED", atEnd (.succeeded register))]

/-- The conditions by how they begin. -/
def Test.table : List (String × (List Char → Option Test)) :=
  [("input.substr(peg$currPos, ", fun s =>
      (number? s).bind fun (units, rest) => readMarked (sliceTable units) rest),
    ("peg$matchesClass(input.charAt(peg$currPos), peg$e", fun s =>
      (numberUpTo ")" s).map .charIn),
    ("input.length > peg$currPos", atEnd .inputLeft),
    ("s", fun s => (number? s).bind fun (register, rest) =>
      readMarked (registerTable register) rest),
    ("peg$silentFails === 0", atEnd .unsilenced),
    ("null !== peg$tracer", atEnd .tracing)]

/-- The condition of the branch with a head. -/
def Test.ofHead? (head : String) : Option Test :=
  (head.toList.dropPrefix? "if (".toList).bind fun s => (upTo ")" s).bind (readMarked table)

/-- The rest of an assignment, behind its target. -/
def Stmt.assigned? (target : Target) (s : List Char) : Option Stmt :=
  ((upTo ";" s).bind Expr.read?).map (.assign target)

/-- The calls of the tracer, by how they go on with the tag of the event. -/
def Stmt.traceTable : List (String × (List Char → Option Stmt)) :=
  [EventKind.enter, .matched, .failed].map fun kind =>
    (kind.tag ++ "\", rule: \"", fun s =>
      (upTo ("\", " ++ traceDetails kind ++ " \x7d);") s).map fun t =>
        .trace kind (String.ofList t))

/-- The statements of one line by how they begin. -/
def Stmt.table : List (String × (List Char → Option Stmt)) :=
  [("peg$currPos = ", assigned? .position),
    ("s", fun s => (number? s).bind fun (n, rest) =>
      (rest.dropPrefix? " = ".toList).bind (assigned? (.register n))),
    ("peg$currPos++;", atEnd .advance),
    ("peg$silentFails++;", atEnd .silence),
    ("peg$silentFails--;", atEnd .unsilence),
    ("peg$fail(peg$e", fun s => (numberUpTo ");" s).map .fail),
    ("const startPos = peg$currPos;", atEnd .start),
    ("peg$tracer.trace(\x7b type: \"", readMarked traceTable)]

/-- The statement that a line spells. -/
def Stmt.ofLine? (line : String) : Option Stmt :=
  if line = "" then some .blank else readMarked table line.toList

/-! ## Blocks -/

/-- A branch that is open. -/
structure OpenBranch where
  /-- The statements in front of it. -/
  before : List Stmt
  /-- Its condition. -/
  test : Test
  /-- The statements of the first case, if that is over. -/
  yes : Option (List Stmt)

/-- What was read so far. -/
structure BlockReader where
  /-- The branches that are open, from the inside. -/
  branches : List OpenBranch := []
  /-- The statements since the last one was opened or went on to its other case. -/
  done : List Stmt := []

/-- Read an operation. -/
def BlockReader.step (r : BlockReader) : Op → Option BlockReader
  | .line text => (Stmt.ofLine? text).map fun s => { r with done := r.done ++ [s] }
  | .opening head => (Test.ofHead? head).map fun test => ⟨⟨r.done, test, none⟩ :: r.branches, []⟩
  | .otherwise =>
      match r.branches with
      | ⟨before, test, none⟩ :: branches => some ⟨⟨before, test, some r.done⟩ :: branches, []⟩
      | _ => none
  | .closing text =>
      if text = "\x7d" then
        match r.branches with
        | ⟨before, test, none⟩ :: branches =>
            some ⟨branches, before ++ [.branch test r.done []]⟩
        | ⟨before, test, some yes⟩ :: branches =>
            some ⟨branches, before ++ [.branch test yes r.done]⟩
        | [] => none
      else none
  | .template _ | .embed _ => none

/-- The statements that operations spell. -/
def Stmt.read? (ops : List Op) : Option (List Stmt) := do
  let r ← ops.foldlM BlockReader.step {}
  if r.branches.isEmpty then some r.done else none

/-- The rule of the function with a head. -/
def Routine.ruleOf? (head : String) : Option String :=
  (head.toList.dropPrefix? "function peg$parse".toList).bind fun s =>
    (upTo "()" s).map String.ofList

/-- The registers of a declaration. -/
def Routine.declared? (line : String) : Option (List Nat) :=
  (line.toList.dropPrefix? "let ".toList).bind fun s => (upTo ";" s).bind registers?

/-- The register that is returned by an operation. -/
def Routine.returned? : Op → Option Nat
  | .line text => (text.toList.dropPrefix? "return ".toList).bind fun s =>
      (upTo ";" s).bind register?
  | _ => none

/-- The function that operations spell: a head, a declaration, and the statements with the return at
the end. -/
def Routine.read? : List Op → Option Routine
  | [.opening head, .line declaration, .line blank, .embed code, .closing brace] =>
      if blank = "" ∧ brace = "\x7d" then do
        let rule ← ruleOf? head
        let declared ← declared? declaration
        let body ← Stmt.read? code.dropLast
        let result ← code.getLast?.bind returned?
        some ⟨rule, declared, body, result⟩
      else none
  | _ => none

/-! ## Reading what was written -/

section Written

/-- At most one form of value begins as a text does. -/
theorem Expr.pairwise_table : (Expr.table.map fun entry => entry.1.toList).Pairwise Apart := by
  decide

/-- At most one form of condition does. -/
theorem Test.pairwise_table : (Test.table.map fun entry => entry.1.toList).Pairwise Apart := by
  decide

theorem Test.pairwise_sliceTable (units : Nat) :
    ((Test.sliceTable units).map fun entry => entry.1.toList).Pairwise Apart := by
  show ([") === \"", ").toLowerCase() === \""].map String.toList).Pairwise Apart
  decide

theorem Test.pairwise_registerTable (register : Nat) :
    ((Test.registerTable register).map fun entry => entry.1.toList).Pairwise Apart := by
  show ([" === peg$FAILED", " !== peg$FAILED"].map String.toList).Pairwise Apart
  decide

theorem Stmt.pairwise_traceTable :
    (Stmt.traceTable.map fun entry => entry.1.toList).Pairwise Apart := by
  decide

/-- At most one form of statement does. -/
theorem Stmt.pairwise_table : (Stmt.table.map fun entry => entry.1.toList).Pairwise Apart := by
  decide

/-- A value is read as it was written. -/
theorem Expr.read?_render (e : Expr) : Expr.read? e.render.toList = some e := by
  cases e with
  | position => exact readMarked_append pairwise_table 0 rfl []
  | positionPlus units =>
      have hrender : (positionPlus units).render.toList =
          "peg$currPos".toList ++ (" + ".toList ++ (toString units).toList) := by
        simp [render, positionName]
      rw [hrender, read?, readMarked_append pairwise_table 0 rfl, if_neg (by simp),
        dropPrefix?_append, Option.bind_some, numberUpTo_toString]
      rfl
  | register n =>
      have hrender : (register n).render.toList = "s".toList ++ (toString n).toList :=
        toList_registerName n
      rw [hrender, read?, readMarked_append pairwise_table 1 rfl, numberUpTo_toString]
      rfl
  | failure => exact readMarked_append pairwise_table 2 rfl []
  | quoted literal =>
      have hrender : (quoted literal).render.toList =
          "\"".toList ++ (literal.toList ++ "\"".toList) := by
        simp [render, quote]
      rw [hrender, read?, readMarked_append pairwise_table 3 rfl, upTo_append]
      simp
  | slice units =>
      have hrender : (slice units).render.toList =
          "input.substr(peg$currPos, ".toList ++ ((toString units).toList ++ ")".toList) := by
        simp [render, sliceFragment, inputName, positionName, Fragment.substr]
      rw [hrender, read?, readMarked_append pairwise_table 4 rfl, numberUpTo_append units rfl]
      rfl
  | char => exact readMarked_append pairwise_table 5 rfl []
  | array registers =>
      have hrender : (array registers).render.toList = "[".toList ++
          ((Text.joinWith ", " (registers.map fun n => (registerName n).text)).toList ++
            "]".toList) := by
        simp [render, arrayLiteral]
      rw [hrender, read?, readMarked_append pairwise_table 6 rfl, upTo_append, Option.bind_some,
        registers?_joinWith]
      rfl
  | invoke rule =>
      have hrender : (invoke rule).render.toList =
          "peg$parse".toList ++ (rule.toList ++ "()".toList) := by
        simp [render, ruleFunctionName, Fragment.call]
      rw [hrender, read?, readMarked_append pairwise_table 7 rfl, upTo_append]
      simp

/-- A comparison of a slice is read by what follows the number of its units. -/
theorem Test.readMarked_slice (units i : Nat) {mark : String} {read : List Char → Option Test}
    (h : (sliceTable units)[i]? = some (mark, read))
    (hmark : mark.toList.head?.any fun c => !c.isDigit) (s : List Char) :
    readMarked table ("input.substr(peg$currPos, ".toList ++
      ((toString units).toList ++ (mark.toList ++ s))) = read s := by
  rw [readMarked_append pairwise_table 0 rfl, number?_append units (all_head?_append hmark s),
    Option.bind_some]
  exact readMarked_append (pairwise_sliceTable units) i h s

/-- A question about a register is read by what follows its name. -/
theorem Test.readMarked_question (register i : Nat) {mark : String} {t : Test}
    (h : (registerTable register)[i]? = some (mark, atEnd t))
    (hmark : mark.toList.head?.any fun c => !c.isDigit) :
    readMarked table ("s".toList ++ ((toString register).toList ++ mark.toList)) = some t := by
  have hend := readMarked_append (pairwise_registerTable register) i h []
  rw [List.append_nil] at hend
  have hbehind := all_head?_append hmark []
  rw [List.append_nil] at hbehind
  rw [readMarked_append pairwise_table 3 rfl, number?_append register hbehind, Option.bind_some]
  exact hend

/-- A condition is read as it was written. -/
theorem Test.readMarked_render (t : Test) : readMarked table t.render.toList = some t := by
  cases t with
  | sliceIs units literal =>
      have hrender : (sliceIs units literal).render.toList = "input.substr(peg$currPos, ".toList ++
          ((toString units).toList ++
            (") === \"".toList ++ (literal.toList ++ "\"".toList))) := by
        simp [render, sliceFragment, inputName, positionName, Fragment.substr, Fragment.equal,
          quote]
      rw [hrender, readMarked_slice units 0 rfl (by simp), upTo_append]
      simp
  | lowerSliceIs units literal =>
      have hrender : (lowerSliceIs units literal).render.toList =
          "input.substr(peg$currPos, ".toList ++ ((toString units).toList ++
            (").toLowerCase() === \"".toList ++ (literal.toList ++ "\"".toList))) := by
        simp [render, sliceFragment, inputName, positionName, Fragment.substr, Fragment.equal,
          Fragment.toLowerCase, quote]
      rw [hrender, readMarked_slice units 1 rfl (by simp), upTo_append]
      simp
  | charIn constant =>
      have hrender : (charIn constant).render.toList =
          "peg$matchesClass(input.charAt(peg$currPos), peg$e".toList ++
            ((toString constant).toList ++ ")".toList) := by
        simp [render, currentChar, constantName, positionName, Fragment.call]
      rw [hrender, readMarked_append pairwise_table 1 rfl, numberUpTo_append constant rfl]
      rfl
  | inputLeft => exact readMarked_append pairwise_table 2 rfl []
  | failed register =>
      have hrender : (failed register).render.toList =
          "s".toList ++ ((toString register).toList ++ " === peg$FAILED".toList) := by
        simp [render, registerName, failureName, Fragment.equal]
      rw [hrender, readMarked_question register 0 rfl (by simp)]
  | succeeded register =>
      have hrender : (succeeded register).render.toList =
          "s".toList ++ ((toString register).toList ++ " !== peg$FAILED".toList) := by
        simp [render, registerName, failureName, Fragment.notEqual]
      rw [hrender, readMarked_question register 1 rfl (by simp)]
  | unsilenced => exact readMarked_append pairwise_table 4 rfl []
  | tracing => exact readMarked_append pairwise_table 5 rfl []

/-- The head of a branch tells its condition. -/
theorem Test.ofHead?_ifHead (t : Test) : Test.ofHead? (ifHead t.render) = some t := by
  have hhead : (ifHead t.render).toList = "if (".toList ++ (t.render.toList ++ ")".toList) := by
    simp [ifHead]
  rw [ofHead?, hhead, dropPrefix?_append, Option.bind_some, upTo_append, Option.bind_some,
    readMarked_render]

theorem Stmt.assigned?_render (target : Target) (value : Expr) :
    assigned? target (value.render.toList ++ ";".toList) = some (.assign target value) := by
  rw [assigned?, upTo_append, Option.bind_some, Expr.read?_render]
  rfl

/-- An assignment tells its target and its value. -/
theorem Stmt.ofLine?_assign (target : Target) (value : Expr) :
    ofLine? (target.fragment.set value.render) = some (.assign target value) := by
  cases target with
  | position =>
      have hline : (Target.position.fragment.set value.render).toList =
          "peg$currPos = ".toList ++ (value.render.toList ++ ";".toList) := by
        simp [Target.fragment, positionName, Fragment.set]
      rw [ofLine?, if_neg (by simp [Fragment.set]), hline, readMarked_append pairwise_table 0 rfl,
        assigned?_render]
  | register n =>
      have hline : ((Target.register n).fragment.set value.render).toList =
          "s".toList ++ ((toString n).toList ++
            (" = ".toList ++ (value.render.toList ++ ";".toList))) := by
        simp [Target.fragment, registerName, Fragment.set]
      rw [ofLine?, if_neg (by simp [Fragment.set]), hline, readMarked_append pairwise_table 1 rfl,
        number?_append n (by simp), Option.bind_some]
      dsimp only
      rw [dropPrefix?_append, Option.bind_some, assigned?_render]

/-- A report of a failure tells its constant. -/
theorem Stmt.ofLine?_fail (constant : Nat) :
    ofLine? (failName.call [(constantName constant).text]).stmt = some (.fail constant) := by
  have hline : (failName.call [(constantName constant).text]).stmt.toList =
      "peg$fail(peg$e".toList ++ ((toString constant).toList ++ ");".toList) := by
    simp [failName, constantName, Fragment.call, Fragment.stmt]
  rw [ofLine?, if_neg (by simp [Fragment.call, Fragment.stmt]), hline,
    readMarked_append pairwise_table 5 rfl, numberUpTo_append constant rfl]
  rfl

/-- A call of the tracer tells the event and the name. -/
theorem Stmt.ofLine?_traceLine (kind : EventKind) (literal : String) :
    ofLine? (traceLine kind literal) = some (.trace kind literal) := by
  have hline : (traceLine kind literal).toList = "peg$tracer.trace(\x7b type: \"".toList ++
      ((kind.tag ++ "\", rule: \"").toList ++
        (literal.toList ++ ("\", " ++ traceDetails kind ++ " \x7d);").toList)) :=
    String.toList_append.trans <| congrArg _ <| String.toList_append.trans <| congrArg _ <|
      String.toList_append
  have hkind : traceTable[kind.ctorIdx]? = some (kind.tag ++ "\", rule: \"", fun s =>
      (upTo ("\", " ++ traceDetails kind ++ " \x7d);") s).map fun t =>
        .trace kind (String.ofList t)) := by
    cases kind <;> rfl
  have hne : traceLine kind literal ≠ "" := by
    intro hempty
    rw [hempty] at hline
    cases hline
  rw [ofLine?, if_neg hne, hline, readMarked_append pairwise_table 7 rfl,
    readMarked_append pairwise_traceTable _ hkind, upTo_append]
  simp

/-- A line that is all mark. -/
theorem Stmt.ofLine?_mark (i : Nat) {mark : String} {s : Stmt}
    (h : table[i]? = some (mark, atEnd s)) (hne : mark ≠ "") : ofLine? mark = some s := by
  have hmark := readMarked_append pairwise_table i h []
  rw [List.append_nil] at hmark
  rw [ofLine?, if_neg hne, hmark]
  rfl

/-- A line is read as the statement that was written. -/
theorem BlockReader.step_line {line : String} {s : Stmt} (h : Stmt.ofLine? line = some s)
    (r : BlockReader) :
    [Op.line line].foldlM BlockReader.step r = some { r with done := r.done ++ [s] } := by
  rw [List.foldlM_cons, step, h]
  rfl

namespace Stmt

mutual

/-- The code of a statement is read as that statement, whatever branches are open. -/
theorem foldlM_ops (r : BlockReader) : ∀ s : Stmt,
    s.ops.foldlM BlockReader.step r = some { r with done := r.done ++ [s] }
  | .blank => BlockReader.step_line rfl r
  | .assign target value => BlockReader.step_line (ofLine?_assign target value) r
  | .advance => BlockReader.step_line (ofLine?_mark 2 rfl (by decide)) r
  | .silence => BlockReader.step_line (ofLine?_mark 3 rfl (by decide)) r
  | .unsilence => BlockReader.step_line (ofLine?_mark 4 rfl (by decide)) r
  | .fail constant => BlockReader.step_line (ofLine?_fail constant) r
  | .start => BlockReader.step_line (ofLine?_mark 6 rfl (by decide)) r
  | .trace kind literal => BlockReader.step_line (ofLine?_traceLine kind literal) r
  | .branch test yes [] => by
      rw [ops, List.cons_append, List.foldlM_cons, BlockReader.step, Test.ofHead?_ifHead]
      show (opsAll yes ++ [Op.close]).foldlM BlockReader.step
        (⟨⟨r.done, test, none⟩ :: r.branches, []⟩ : BlockReader) = _
      rw [List.foldlM_append, foldlM_opsAll]
      rfl
  | .branch test yes (s :: no) => by
      rw [ops, List.cons_append, List.cons_append, List.append_assoc, List.foldlM_cons,
        BlockReader.step, Test.ofHead?_ifHead]
      show (opsAll yes ++ _).foldlM BlockReader.step
        (⟨⟨r.done, test, none⟩ :: r.branches, []⟩ : BlockReader) = _
      rw [List.foldlM_append, foldlM_opsAll]
      show ((ops s ++ opsAll no) ++ [Op.close]).foldlM BlockReader.step
        (⟨⟨r.done, test, some ([] ++ yes)⟩ :: r.branches, []⟩ : BlockReader) = _
      rw [List.foldlM_append, List.foldlM_append, foldlM_ops]
      show ((opsAll no).foldlM BlockReader.step _ >>= _) = _
      rw [foldlM_opsAll]
      rfl

/-- Statements are read one after the other, whatever branches are open. -/
theorem foldlM_opsAll (r : BlockReader) : ∀ stmts : List Stmt,
    (opsAll stmts).foldlM BlockReader.step r = some { r with done := r.done ++ stmts }
  | [] => by simp
  | s :: stmts => by
      rw [opsAll, List.foldlM_append, foldlM_ops]
      show (opsAll stmts).foldlM BlockReader.step _ = _
      rw [foldlM_opsAll, List.append_assoc]
      rfl

end

/-- Statements are read from their code. -/
theorem read?_opsAll (code : List Stmt) : read? (opsAll code) = some code := by
  rw [read?, foldlM_opsAll]
  rfl

end Stmt

/-- A function is read from its code. -/
theorem Routine.read?_ops (r : Routine) : Routine.read? r.ops = some r := by
  have hhead : ("function " ++ (ruleFunctionName r.rule).text ++ "()").toList =
      "function peg$parse".toList ++ (r.rule.toList ++ "()".toList) := by
    simp [ruleFunctionName]
  have hdeclaration : (letDecl (Text.joinWith ", "
        (r.declared.map fun n => (registerName n).text)) none).toList =
      "let ".toList ++ ((Text.joinWith ", "
        (r.declared.map fun n => (registerName n).text)).toList ++ ";".toList) := by
    simp [letDecl]
  have hreturn : ("return " ++ (registerName r.result).text ++ ";").toList =
      "return ".toList ++ ((registerName r.result).text.toList ++ ";".toList) := by
    simp
  have hrule : ruleOf? ("function " ++ (ruleFunctionName r.rule).text ++ "()") = some r.rule := by
    rw [ruleOf?, hhead, dropPrefix?_append, Option.bind_some, upTo_append]
    simp
  have hdeclared : declared? (letDecl (Text.joinWith ", "
      (r.declared.map fun n => (registerName n).text)) none) = some r.declared := by
    rw [declared?, hdeclaration, dropPrefix?_append, Option.bind_some, upTo_append,
      Option.bind_some, registers?_joinWith]
  have hresult : r.bodyOps.getLast?.bind returned? = some r.result := by
    rw [bodyOps, List.getLast?_concat, Option.bind_some, returned?, hreturn, dropPrefix?_append,
      Option.bind_some, upTo_append, Option.bind_some, register?_registerName]
  have hbody : Stmt.read? r.bodyOps.dropLast = some r.body := by
    rw [bodyOps, List.dropLast_concat, Stmt.read?_opsAll]
  rw [ops, Code.Op.close, read?, if_pos ⟨rfl, rfl⟩, hrule, hdeclared, hbody, hresult]
  rfl

end Written

end PegGen.Js
