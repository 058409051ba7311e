import PegGen.Proofs.Compile.Uncollected

/-!
# Blocks of code

A buffer counts the open blocks, and closing a block when none is open goes unnoticed.  This module
says that it never comes to that.

The operations are flat, and `nesting?` and `placed` go along them and count: how many blocks are
open, and so at which depth each line is.  A run that never closes a block which it has not opened
writes its lines at these depths, on whatever buffer it is (`run_eq_written`).

`Laid ops lines` describes operations by the blocks they are made of.  Each block is opened by one
operation and closed by another, with at most one change to the other case between them, and `lines`
are the lines that are written, each with the number of blocks around it.  Such operations close no
block of others (`Laid.nesting?_eq`), and the blocks around a line are as many as were counted
(`Laid.placed_eq`).

The code of an expression is laid because it is that of a tree (`run_expressionOps_iff`), and the
fixed parts of a module are by inspection.  The code of the rule functions is laid out in buffers of
its own, which are treated alike (`Buffered`).
-/

namespace PegGen.Js

namespace Code

/-! ## What an operation does -/

namespace Op

/-- How many blocks the operation closes, before it writes. -/
def closes : Op → Nat
  | .otherwise | .closing _ => 1
  | .line _ | .template _ | .embed _ | .opening _ => 0

/-- How many blocks the operation opens, after it has written. -/
def opens : Op → Nat
  | .otherwise | .opening _ => 1
  | .line _ | .template _ | .embed _ | .closing _ => 0

/-- What the operation writes, without indentation. -/
def texts : Op → List String
  | .line text => [text]
  | .template text => (Text.logicalLines text.toList).map String.ofList
  | .embed ops => (Text.logicalLines (render ops).toList).map String.ofList
  | .opening head => [head ++ " \x7b"]
  | .otherwise => ["\x7d else \x7b"]
  | .closing text => [text]

end Op

/-- Lines as they are written at an indentation, each with its depth. -/
def written (indent : Nat) (lines : List (Nat × String)) : Array String :=
  (lines.map fun l => indented (indent + l.1) l.2).toArray

@[simp] theorem written_nil (indent : Nat) : written indent [] = #[] := rfl

@[simp] theorem written_append (indent : Nat) (lines lines' : List (Nat × String)) :
    written indent (lines ++ lines') = written indent lines ++ written indent lines' := by
  simp [written]

/-- Lines inside one more block. -/
def deeper (lines : List (Nat × String)) : List (Nat × String) :=
  lines.map fun l => (l.1 + 1, l.2)

/-- Several lines are written at the present indentation. -/
theorem foldl_line (c : Code) (texts : List String) :
    texts.foldl line c =
      ⟨c.lines ++ written c.indent (texts.map (0, ·)), c.indent⟩ := by
  induction texts generalizing c with
  | nil => simp
  | cons text texts ih =>
      rw [List.foldl_cons, ih]
      simp [line, written]

/-- The lines of a template are written at the present indentation. -/
theorem template_eq (c : Code) (text : String) :
    c.template text = ⟨c.lines ++ written c.indent ((Op.template text).texts.map (0, ·)),
      c.indent⟩ := by
  have hlines := foldl_line c ((Text.logicalLines text.toList).map String.ofList)
  rw [List.foldl_map] at hlines
  exact hlines

/-- An operation closes blocks, writes its lines, and opens blocks. -/
theorem apply_eq (c : Code) (op : Op) :
    c.apply op = ⟨c.lines ++ written (c.indent - op.closes) (op.texts.map (0, ·)),
      c.indent - op.closes + op.opens⟩ := by
  cases op with
  | line text => simp [apply, line, written, Op.closes, Op.opens, Op.texts]
  | template text => exact template_eq c text
  | embed ops => exact template_eq c (render ops)
  | opening head => simp [apply, line, written, Op.closes, Op.opens, Op.texts]
  | otherwise => simp [apply, line, written, Op.closes, Op.opens, Op.texts]
  | closing text => simp [apply, line, written, Op.closes, Op.opens, Op.texts]

/-! ## Closing what was opened -/

/-- How many blocks are open after some operations, if there always was one to be closed. -/
def nesting? (depth : Nat) : List Op → Option Nat
  | [] => some depth
  | op :: ops => if op.closes ≤ depth then nesting? (depth - op.closes + op.opens) ops else none

/-- Blocks are counted along the operations. -/
theorem nesting?_append (depth : Nat) (ops ops' : List Op) :
    nesting? depth (ops ++ ops') = (nesting? depth ops).bind (nesting? · ops') := by
  induction ops generalizing depth with
  | nil => rfl
  | cons op ops ih =>
      rw [List.cons_append, nesting?, nesting?]
      split
      · exact ih _
      · rfl

/-- The lines that operations write, each with the number of blocks it is in, where `depth` blocks
are open before. -/
def placed (depth : Nat) : List Op → List (Nat × String)
  | [] => []
  | op :: ops =>
      op.texts.map (depth - op.closes, ·) ++ placed (depth - op.closes + op.opens) ops

/-- The depth of a line is counted from the beginning. -/
theorem placed_append {depth depth' : Nat} {ops : List Op} (h : nesting? depth ops = some depth')
    (ops' : List Op) : placed depth (ops ++ ops') = placed depth ops ++ placed depth' ops' := by
  induction ops generalizing depth with
  | nil =>
      cases h
      rfl
  | cons op ops ih =>
      rw [nesting?] at h
      split at h
      · rw [List.cons_append, placed, placed, ih h, List.append_assoc]
      · cases h

/-- The blocks that an operation closes are among those that are open on top of the base. -/
theorem written_texts {base depth closed : Nat} (h : closed ≤ depth) (texts : List String) :
    written (base + depth - closed) (texts.map (0, ·)) =
      written base (texts.map (depth - closed, ·)) := by
  simp [written, Function.comp_def, Nat.add_sub_assoc h]

/-- A run on top of `base` blocks leaves these alone and writes its lines inside them. -/
theorem run_eq_written {base depth depth' : Nat} {ops : List Op}
    (h : nesting? depth ops = some depth') {c : Code} (hc : c.indent = base + depth) :
    c.run ops = ⟨c.lines ++ written base (placed depth ops), base + depth'⟩ := by
  induction ops generalizing depth c with
  | nil =>
      cases h
      simp [placed, ← hc]
  | cons op ops ih =>
      rw [nesting?] at h
      split at h
      next hle =>
        have hindent : (c.apply op).indent = base + (depth - op.closes + op.opens) := by
          rw [apply_eq, hc]
          show base + depth - op.closes + op.opens = _
          omega
        rw [run_cons, ih h hindent, apply_eq, placed, written_append, ← written_texts hle, hc,
          Array.append_assoc]
      · cases h

/-! ## Operations made of blocks -/

/-- The operations are made of whole blocks, and write the lines, each with the number of blocks it
is in. -/
inductive Laid : List Op → List (Nat × String) → Prop where
  /-- Nothing. -/
  | nil : Laid [] []
  /-- A line. -/
  | line (text : String) : Laid [.line text] ((Op.line text).texts.map (0, ·))
  /-- The lines of a template. -/
  | template (text : String) : Laid [.template text] ((Op.template text).texts.map (0, ·))
  /-- The lines of code that is laid out in a buffer of its own, and made of whole blocks there. -/
  | embed {ops : List Op} {lines : List (Nat × String)} (h : Laid ops lines) :
      Laid [.embed ops] ((Op.embed ops).texts.map (0, ·))
  /-- Blocks after others. -/
  | append {ops ops' : List Op} {lines lines' : List (Nat × String)} (h : Laid ops lines)
      (h' : Laid ops' lines') : Laid (ops ++ ops') (lines ++ lines')
  /-- A block. -/
  | block {body : List Op} {lines : List (Nat × String)} (head close : String)
      (h : Laid body lines) :
      Laid (.opening head :: (body ++ [.closing close]))
        ((Op.opening head).texts.map (0, ·) ++ (deeper lines ++
          (Op.closing close).texts.map (0, ·)))
  /-- A block for one case and one for the other. -/
  | branches {yes no : List Op} {lines lines' : List (Nat × String)} (head close : String)
      (h : Laid yes lines) (h' : Laid no lines') :
      Laid (.opening head :: (yes ++ .otherwise :: (no ++ [.closing close])))
        ((Op.opening head).texts.map (0, ·) ++ (deeper lines ++ (Op.otherwise.texts.map (0, ·) ++
          (deeper lines' ++ (Op.closing close).texts.map (0, ·)))))

/-- All blocks that are closed are blocks of these operations. -/
theorem Laid.nesting?_eq {ops : List Op} {lines : List (Nat × String)} (h : Laid ops lines)
    (depth : Nat) : nesting? depth ops = some depth := by
  induction h generalizing depth with
  | nil => rfl
  | line text => rfl
  | template text => rfl
  | embed _ _ => rfl
  | append _ _ ih ih' => rw [nesting?_append, ih, Option.bind_some, ih']
  | block head close _ ih =>
      show nesting? (depth + 1) _ = _
      rw [nesting?_append, ih]
      simp [nesting?, Op.closes, Op.opens]
  | branches head close _ _ ih ih' =>
      show nesting? (depth + 1) _ = _
      rw [nesting?_append, ih, Option.bind_some, nesting?, if_pos (by simp [Op.closes])]
      show nesting? (depth + 1) _ = _
      rw [nesting?_append, ih']
      simp [nesting?, Op.closes, Op.opens]

/-- The blocks around a line are those that were opened before and not closed. -/
theorem Laid.placed_eq {ops : List Op} {lines : List (Nat × String)} (h : Laid ops lines)
    (depth : Nat) : placed depth ops = lines.map fun l => (depth + l.1, l.2) := by
  induction h generalizing depth with
  | nil => rfl
  | line text => simp [placed, Op.closes]
  | template text => simp [placed, Op.closes]
  | embed _ _ => simp [placed, Op.closes]
  | append h _ ih ih' => rw [placed_append (h.nesting?_eq depth), ih, ih', List.map_append]
  | block head close h ih =>
      have hinside := placed_append (h.nesting?_eq (depth + 1)) [.closing close]
      simp [placed, Op.closes, Op.opens, hinside, ih, deeper, Function.comp_def,
        Nat.add_comm, Nat.add_left_comm]
  | branches head close h h' ih ih' =>
      have hinside := placed_append (h.nesting?_eq (depth + 1))
      have hinside' := placed_append (h'.nesting?_eq (depth + 1)) [.closing close]
      simp [placed, Op.closes, Op.opens, hinside, hinside', ih, ih', deeper,
        Function.comp_def, Nat.add_comm, Nat.add_left_comm]

/-- What a run of some operations does to a buffer, if all they close are blocks of their own. -/
structure Balanced (c : Code) (ops : List Op) : Prop where
  /-- In the end as many blocks are open as before. -/
  indent_eq : (c.run ops).indent = c.indent
  /-- On the way there are never fewer. -/
  indent_le : ∀ before after, ops = before ++ after → c.indent ≤ (c.run before).indent
  /-- When a block is closed, one is open that was not before. -/
  closes_le : ∀ before op after, ops = before ++ op :: after →
    c.indent + op.closes ≤ (c.run before).indent
  /-- The operations are made of whole blocks.  Around each line are as many of them as were opened
  and not closed in front of it. -/
  laid : Laid ops (placed 0 ops)
  /-- Every line is indented by the number of blocks around it. -/
  lines_eq : (c.run ops).lines = c.lines ++ written c.indent (placed 0 ops)

/-- The operations are made of whole blocks. -/
def Nested (ops : List Op) : Prop :=
  ∃ lines, Laid ops lines

theorem Nested.nesting?_eq {ops : List Op} (h : Nested ops) (depth : Nat) :
    nesting? depth ops = some depth := by
  obtain ⟨lines, h⟩ := h
  exact h.nesting?_eq depth

theorem Nested.laid {ops : List Op} (h : Nested ops) : Laid ops (placed 0 ops) := by
  obtain ⟨lines, h⟩ := h
  have hplaced : placed 0 ops = lines := by simp [h.placed_eq 0]
  exact hplaced ▸ h

/-- Whole blocks are balanced on every buffer. -/
theorem Nested.balanced {ops : List Op} (h : Nested ops) (c : Code) : c.Balanced ops := by
  have hrun := run_eq_written (h.nesting?_eq 0) (c := c) rfl
  have hbefore : ∀ before after, ops = before ++ after → ∃ depth,
      (c.run before).indent = c.indent + depth ∧ (nesting? depth after).isSome := by
    rintro before after rfl
    have hnesting := h.nesting?_eq 0
    rw [nesting?_append, Option.bind_eq_some_iff] at hnesting
    obtain ⟨depth, hdepth, hafter⟩ := hnesting
    exact ⟨depth, by rw [run_eq_written hdepth rfl], by rw [hafter]; rfl⟩
  refine ⟨by rw [hrun, Nat.add_zero], fun before after heq => ?_, fun before op after heq => ?_,
    h.laid, by rw [hrun]⟩
  · obtain ⟨depth, hdepth, -⟩ := hbefore before after heq
    omega
  · obtain ⟨depth, hdepth, hsome⟩ := hbefore before (op :: after) heq
    rw [nesting?] at hsome
    split at hsome
    · omega
    · cases hsome

/-- Some operations that are performed along with others: these themselves, and the code in them
that is laid out in a buffer of its own. -/
inductive Buffered (ops : List Op) : List Op → Prop where
  /-- The operations themselves. -/
  | self : Buffered ops ops
  /-- Code that is laid out for an operation. -/
  | embedded {code inner : List Op} (h : Buffered ops code) (hmem : .embed inner ∈ code) :
      Buffered ops inner

/-- Code that is laid out for whole blocks is made of whole blocks. -/
theorem Laid.nested_of_embed_mem {ops inner : List Op} {lines : List (Nat × String)}
    (h : Laid ops lines) (hmem : .embed inner ∈ ops) : Nested inner := by
  induction h with
  | nil => cases hmem
  | line text => simp at hmem
  | template text => simp at hmem
  | embed h _ =>
      obtain rfl : inner = _ := by simpa using hmem
      exact ⟨_, h⟩
  | append _ _ ih ih' => exact (List.mem_append.1 hmem).elim ih ih'
  | block head close _ ih => exact ih (by simpa using hmem)
  | @branches yes no _ _ head close _ _ ih ih' =>
      have hcases : .embed inner ∈ yes ∨ .embed inner ∈ no := by simpa using hmem
      exact hcases.elim ih ih'

/-- What is laid out for whole blocks, at any level, is made of whole blocks too. -/
theorem Nested.of_buffered {ops inner : List Op} (h : Nested ops) (hinner : Buffered ops inner) :
    Nested inner := by
  induction hinner with
  | self => exact h
  | embedded _ hmem ih =>
      obtain ⟨lines, hlaid⟩ := ih
      exact hlaid.nested_of_embed_mem hmem

namespace Nested

variable {ops ops' : List Op} {head close : String}

theorem nil : Nested [] := ⟨_, .nil⟩

/-- Whole blocks may follow each other. -/
theorem append (h : Nested ops) (h' : Nested ops') : Nested (ops ++ ops') := by
  obtain ⟨_, h⟩ := h
  obtain ⟨_, h'⟩ := h'
  exact ⟨_, h.append h'⟩

theorem line (text : String) (h : Nested ops) : Nested (.line text :: ops) :=
  append ⟨_, .line text⟩ h

theorem template (text : String) (h : Nested ops) : Nested (.template text :: ops) :=
  append ⟨_, .template text⟩ h

/-- Code that is laid out elsewhere writes lines here. -/
theorem embed {inner : List Op} (hinner : Nested inner) (h : Nested ops) :
    Nested (.embed inner :: ops) := by
  obtain ⟨_, hinner⟩ := hinner
  exact append ⟨_, .embed hinner⟩ h

/-- A block with whole blocks inside. -/
theorem block (body : List Op) (hbody : Nested body) (h : Nested ops) :
    Nested (.opening head :: (body ++ .closing close :: ops)) := by
  obtain ⟨_, hbody⟩ := hbody
  have happend := append ⟨_, hbody.block head close⟩ h
  simpa using happend

/-- A block with another case, where each case is made of whole blocks. -/
theorem branches (yes no : List Op) (hyes : Nested yes) (hno : Nested no) (h : Nested ops) :
    Nested (.opening head :: (yes ++ .otherwise :: (no ++ .closing close :: ops))) := by
  obtain ⟨_, hyes⟩ := hyes
  obtain ⟨_, hno⟩ := hno
  have happend := append ⟨_, hyes.branches head close hno⟩ h
  simpa using happend

/-- Lines only. -/
theorem of_lines (h : ∀ op ∈ ops, ∃ text, op = .line text) : Nested ops := by
  induction ops with
  | nil => exact nil
  | cons op ops ih =>
      obtain ⟨text, rfl⟩ := h op (.head _)
      exact line text (ih fun op hop => h op (.tail _ hop))

theorem flatMap {α : Type} {f : α → List Op} {l : List α} (h : ∀ a ∈ l, Nested (f a)) :
    Nested (l.flatMap f) := by
  induction l with
  | nil => exact nil
  | cons a l ih =>
      rw [List.flatMap_cons]
      exact (h a (.head _)).append (ih fun a ha => h a (.tail _ ha))

end Nested

end Code

open Code (Nested)

/-! ## Statements -/

namespace Stmt

mutual

/-- The code of a statement is one line, or a block for each case of a branch. -/
theorem nested_ops : ∀ s : Stmt, Nested s.ops
  | .blank => .line _ .nil
  | .assign target value => .line _ .nil
  | .advance => .line _ .nil
  | .silence => .line _ .nil
  | .unsilence => .line _ .nil
  | .fail constant => .line _ .nil
  | .start => .line _ .nil
  | .trace kind literal => .line _ .nil
  | .branch test yes [] => by
      rw [ops]
      exact .block _ (nested_opsAll yes) .nil
  | .branch test yes (s :: no) => by
      rw [ops, List.cons_append, List.cons_append, List.append_assoc]
      exact .branches _ _ (nested_opsAll yes) ((nested_ops s).append (nested_opsAll no)) .nil

/-- Statements are written one after the other, so their blocks do not overlap. -/
theorem nested_opsAll : ∀ stmts : List Stmt, Nested (opsAll stmts)
  | [] => .nil
  | s :: stmts => by
      rw [opsAll]
      exact (nested_ops s).append (nested_opsAll stmts)

end

end Stmt

/-! ## Rule functions -/

namespace RuleFunction

variable {pool : OrderedSet Expectation}

/-- The blocks of the items of a sequence, of the alternatives of a choice and of the leaves are
closed as they are opened, since the code is that of a tree. -/
theorem nested_bodyOps {r : Rule} {f : RuleFunction} (h : generate pool r = .ok f)
    (trace : Bool) : Nested (f.bodyOps trace) := by
  obtain ⟨code, -, hbody, -⟩ := generate_rule_iff.1 h
  rw [bodyOps_eq hbody]
  exact (Stmt.nested_opsAll _).append (.line _ .nil)

/-- A function is a block with lines inside, among them those of its body. -/
theorem nested_ops {r : Rule} {f : RuleFunction} (h : generate pool r = .ok f) (trace : Bool) :
    Nested (f.ops trace) :=
  .block [.line _, .line _, .embed _] (.line _ (.line _ (.embed (nested_bodyOps h trace) .nil)))
    .nil

end RuleFunction

/-! ## Modules -/

namespace ParserModule

theorem nested_headerOps (header : Option String) : Nested (headerOps header) := by
  cases header with
  | none => exact .line _ (.line _ .nil)
  | some header => exact .template _ (.line _ .nil)

theorem nested_strictOps (format : Format) : Nested (strictOps format) := by
  rw [strictOps]
  split
  · exact .nil
  · exact .line _ (.line _ .nil)

theorem nested_constructorOps (kind : Expectation.Kind) : Nested (constructorOps kind) :=
  .block [.line _] (.line _ .nil) (.line _ .nil)

theorem nested_tracerOps (trace : Bool) : Nested (tracerOps trace) := by
  cases trace
  · exact .nil
  · exact .template _ (.line _ .nil)

theorem nested_constantOps (pool : OrderedSet Expectation) : Nested (constantOps pool) := by
  refine .append (.of_lines fun op hop => ?_) (.line _ .nil)
  obtain ⟨n, hn, rfl⟩ := List.mem_mapIdx.1 hop
  exact ⟨_, rfl⟩

theorem nested_startTableOps (startRules : List String) (first : String) :
    Nested (startTableOps startRules first) :=
  .line _ (.line _ (.line _ (.line _ (.line _ (.line _ .nil)))))

theorem nested_stateOps (trace : Bool) : Nested (stateOps trace) :=
  .of_lines (by cases trace <;> simp [stateOps])

theorem nested_startChoiceOps : Nested startChoiceOps :=
  .block [.opening _, .line _, .close, .line _]
    (.block [.line _] (.line _ .nil) (.line _ .nil)) (.line _ .nil)

/-- Each function is laid out in a buffer of its own. -/
theorem nested_functionOps {pool : OrderedSet Expectation} {rules : List Rule}
    {functions : List RuleFunction} (h : rules.mapM (RuleFunction.generate pool) = .ok functions)
    (trace : Bool) : Nested (functionOps trace functions) := by
  refine .flatMap fun f hf => ?_
  obtain ⟨r, -, hr⟩ := exists_mem_of_forall₂ (forall₂_of_mapM_eq_ok h).flip f hf
  exact .line _ (.embed (RuleFunction.nested_ops hr trace) .nil)

/-- The entry point has two tests, one after the other. -/
theorem nested_entryOps (endConstant : Nat) : Nested (entryOps endConstant) :=
  .line _ (.line _ (.line _ (.block [.line _] (.line _ .nil)
    (.block [.line _] (.line _ .nil) (.line _ (.template _ .nil))))))

theorem nested_fixedPart (lines : List String) : Nested [fixedPart lines] :=
  .template _ .nil

theorem nested_allowedOps (startRules : List String) : Nested (allowedOps startRules) :=
  .line _ (.line _ .nil)

/-- The parse function is one block around all its parts. -/
theorem nested_parseOps {o : Options} {g : Grammar} {p : ParserModule} (h : generate o g = .ok p) :
    Nested p.parseOps := by
  obtain ⟨-, -, -, hfunctions, -⟩ := generate_eq_ok h
  have hbody := ((((((nested_startTableOps p.options.startRules p.first).append
    (nested_constantOps p.pool)).append (nested_stateOps p.options.trace)).append
    nested_startChoiceOps).append (nested_fixedPart Template.helpers)).append
    (nested_functionOps hfunctions p.options.trace)).append (nested_entryOps p.endConstant)
  exact .block _ hbody (.line "" .nil)

/-- What a format opens in front of a module is closed behind it. -/
theorem nested_wrapped (head last close : String) {inner : List Code.Op} (h : Nested inner) :
    Nested ([.opening head] ++ (inner ++ [.line last, .closing close])) := by
  have hblock : Nested (.opening head :: ((inner ++ [.line last]) ++ [.closing close])) :=
    .block _ (h.append (.line last .nil)) .nil
  rwa [List.append_assoc] at hblock

/-- What stands around a module opens a block if it closes one. -/
theorem nested_around (format : Format) (trace : Bool) {inner : List Code.Op}
    (h : Nested inner) : Nested (openingOps format ++ (inner ++ closingOps format trace)) := by
  cases format with
  | bare => exact nested_wrapped _ _ _ h
  | globals name => exact nested_wrapped _ _ _ h
  | commonJs => exact h.append (.line _ .nil)
  | es => exact h.append (.line _ .nil)

/-- A module is made of whole blocks in every format. -/
theorem nested_ops {o : Options} {g : Grammar} {p : ParserModule} (h : generate o g = .ok p) :
    Nested p.ops := by
  have hinner := (((((nested_strictOps p.options.format).append
    ((nested_fixedPart Template.syntaxError).append (.line "" .nil))).append
    (.flatMap fun kind (_ : kind ∈ Expectation.Kind.all) => nested_constructorOps kind)).append
    (nested_tracerOps p.options.trace)).append (nested_allowedOps p.options.startRules)).append
    (nested_parseOps h)
  have hall := (nested_headerOps p.options.header).append
    (nested_around p.options.format p.options.trace hinner)
  rw [ops]
  simpa only [List.append_assoc, List.cons_append, List.nil_append] using hall

/-- The code of a function is laid out for the module, and what is inside it for the function. -/
theorem buffered_function {p : ParserModule} {f : RuleFunction} (hf : f ∈ p.functions) :
    Code.Buffered p.ops (f.ops p.options.trace) ∧
      Code.Buffered p.ops (f.bodyOps p.options.trace) := by
  have hmem : .embed (f.ops p.options.trace) ∈ functionOps p.options.trace p.functions :=
    List.mem_flatMap.2 ⟨f, hf, .tail _ (.head _)⟩
  have hops : Code.Buffered p.ops (f.ops p.options.trace) :=
    .embedded .self (by simp [ops, parseOps, hmem])
  exact ⟨hops, .embedded hops (by simp [RuleFunction.ops])⟩

end ParserModule

end PegGen.Js

namespace PegGen

open PassT Js

/-- The code that is emitted for an expression is balanced, on every buffer.  So is that of a
module, and whatever is laid out for it in a buffer of its own, and no block is left open. -/
theorem generated_balanced :
    (∀ (pool : OrderedSet Expectation) (e : Expression) (target n n' : Nat) (ops : List Code.Op)
      (c : Code), (expressionOps pool target e).run n = .ok (ops, n') → c.Balanced ops) ∧
    ∀ (o : Options) (w : Work), (runWith o w (generateParser : Pass Id)).1 = .ok () →
      ∃ p : ParserModule, ParserModule.generate o w.grammar = .ok p ∧
        (runWith o w (generateParser : Pass Id)).2.grammar.code =
          some (Code.run {} p.ops).finish ∧
        (Code.run {} p.ops).indent = 0 ∧
        ∀ ops, Code.Buffered p.ops ops → Code.Balanced {} ops := by
  constructor
  · intro pool e target n n' ops c hops
    obtain ⟨code, -, rfl⟩ := run_expressionOps_iff.1 hops
    exact (Stmt.nested_opsAll code).balanced c
  · intro o w hok
    cases h : ParserModule.generate o w.grammar with
    | error err =>
        rw [runWith_generateParser_error h] at hok
        cases hok
    | ok p =>
        obtain ⟨session, hrun, -⟩ := runWith_generateParser o h
        have hnested := ParserModule.nested_ops h
        rw [hrun]
        exact ⟨p, rfl, rfl, (hnested.balanced {}).indent_eq, fun ops hops =>
          (hnested.of_buffered hops).balanced {}⟩

/-- A sequence with a description around a choice, in the middle of a buffer, and a traced
module. -/
theorem generated_balanced_described :
    let pool : OrderedSet Expectation :=
      .ofList [.endOfInput, .any, .other "n", .literal "x" false]
    let o : Options := { startRules := ["s"], trace := true, format := .globals "parser" }
    let e : Expression := .seq [.literal "x" false, .named "n" (.choice [.any, .seq [.any, .any]])]
    (∃ ops, (expressionOps pool 0 e).run 1 = .ok (ops, 7) ∧
      (Code.mk #["begin"] 3).Balanced ops) ∧
    ∃ p : ParserModule, ParserModule.generate o (.described pool) = .ok p ∧
      (Code.run {} p.ops).indent = 0 ∧ Code.Balanced {} p.ops ∧
      ∃ f, p.functions = [f] ∧ Code.Balanced {} (f.ops true) ∧
        Code.Balanced {} (f.bodyOps true) := by
  intro pool o e
  have hops : ∃ ops, (expressionOps pool 0 e).run 1 = .ok (ops, 7) := ⟨_, rfl⟩
  obtain ⟨ops, hops⟩ := hops
  refine ⟨⟨ops, hops, generated_balanced.1 pool e 0 1 7 ops _ hops⟩, ?_⟩
  obtain ⟨p, hp, -, hindent, hbalanced⟩ := generated_balanced.2 o ⟨.described pool, {}⟩ rfl
  have hfunctions : ∃ f, p.functions = [f] := by
    cases hp
    exact ⟨_, rfl⟩
  obtain ⟨f, hf⟩ := hfunctions
  obtain ⟨hoptions, -⟩ := ParserModule.generate_eq_ok hp
  have hmem : f ∈ p.functions := by simp [hf]
  obtain ⟨hfunction, hinside⟩ := ParserModule.buffered_function hmem
  rw [hoptions] at hfunction hinside
  exact ⟨p, hp, hindent, hbalanced _ .self, f, hf, hbalanced _ hfunction, hbalanced _ hinside⟩

end PegGen
