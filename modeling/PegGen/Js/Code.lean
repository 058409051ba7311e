import PegGen.Text.Lines

/-!
# Code buffers

A code buffer holds lines of code, indented by two blanks per open block.  Code is written by
operations on a buffer, and a piece of code is a list of operations.

Code may also be laid out in a buffer of its own, whose text then goes into the outer one.

Closing a block when none is open leaves the indentation at zero.
-/

namespace PegGen.Js

/-- Lines of code. -/
structure Code where
  /-- The lines so far. -/
  lines : Array String := #[]
  /-- The number of open blocks. -/
  indent : Nat := 0
deriving DecidableEq, Repr, Inhabited

namespace Code

/-- An operation on a buffer. -/
inductive Op where
  /-- Write a line. -/
  | line (text : String)
  /-- Write every line of a template. -/
  | template (text : String)
  /-- Write every line of the text of code that is laid out in a buffer of its own. -/
  | embed (ops : List Op)
  /-- Open a block after a head. -/
  | opening (head : String)
  /-- Close a block and open the one for the other case. -/
  | otherwise
  /-- Close a block by a line of its own. -/
  | closing (text : String)
deriving Repr

/-- Close a block by a brace. -/
def Op.close : Op :=
  .closing "\x7d"

/-- A line as it stands at an indentation.  An empty line stays empty. -/
def indented (indent : Nat) (text : String) : String :=
  if text = "" then "" else Text.repeated (2 * indent) ' ' ++ text

/-- Write a line. -/
def line (c : Code) (text : String) : Code :=
  { c with lines := c.lines.push (indented c.indent text) }

/-- Write every line of a template. -/
def template (c : Code) (text : String) : Code :=
  (Text.logicalLines text.toList).foldl (fun c l => c.line (String.ofList l)) c

/-- The text of the buffer. -/
def finish (c : Code) : String :=
  Text.joinWith "\n" c.lines.toList ++ "\n"

mutual

/-- Perform an operation. -/
def apply : Code → Op → Code
  | c, .line text => c.line text
  | c, .template text => c.template text
  | c, .embed ops => c.template (run {} ops).finish
  | c, .opening head => { c.line (head ++ " \x7b") with indent := c.indent + 1 }
  | c, .otherwise =>
      { ({ c with indent := c.indent - 1 } : Code).line "\x7d else \x7b" with
        indent := c.indent - 1 + 1 }
  | c, .closing text => ({ c with indent := c.indent - 1 } : Code).line text

/-- Perform operations one after the other. -/
def run : Code → List Op → Code
  | c, [] => c
  | c, op :: ops => run (apply c op) ops

end

/-- The text of a piece of code. -/
def render (ops : List Op) : String :=
  (run {} ops).finish

@[simp] theorem run_nil (c : Code) : c.run [] = c := rfl

@[simp] theorem run_cons (c : Code) (op : Op) (ops : List Op) :
    c.run (op :: ops) = (c.apply op).run ops := rfl

theorem run_append (c : Code) (ops ops' : List Op) :
    c.run (ops ++ ops') = (c.run ops).run ops' := by
  induction ops generalizing c with
  | nil => rfl
  | cons op ops ih => exact ih (c.apply op)

end Code

/-! ## Tests -/

example :
    Code.render [.opening "if (a)", .line "b();", .otherwise, .line "c();", .close, .line ""] =
    "if (a) \x7b\n  b();\n\x7d else \x7b\n  c();\n\x7d\n\n" := by decide

end PegGen.Js
