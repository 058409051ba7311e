import PegGen.Proofs.Js.Closedness
import PegGen.Proofs.Js.Embedding

/-!
# The header of a module

The header stands at the top of a module.  It is written as a template, line by line, before any
block is opened, so its lines are not indented.  But a template does not keep its line ends: a
carriage return right before a line feed belongs to the line end and is lost.  So the code begins
with the header exactly if there is no such carriage return in it, whatever other line feeds and
carriage returns there are (`generate_header`).
-/

namespace PegGen

namespace Js

open Code (Op)
open Text

/-- A run only adds lines. -/
theorem Code.exists_lines_run (c : Code) (ops : List Op) :
    ∃ added, (c.run ops).lines = c.lines ++ added := by
  induction ops generalizing c with
  | nil => exact ⟨#[], by simp⟩
  | cons op ops ih =>
      obtain ⟨added, hadded⟩ := ih (c.apply op)
      rw [run_cons, hadded, apply_eq]
      exact ⟨_, Array.append_assoc ..⟩

theorem run_headerOps (header : String) :
    Code.run {} (headerOps (some header)) =
      ⟨((logicalLines header.toList).map String.ofList ++ [""]).toArray, 0⟩ := by
  rw [headerOps, Code.run_cons, Code.run_cons, Code.run_nil, Code.apply_eq, Code.apply_eq]
  simp [Code.written, Op.closes, Op.opens, Op.texts, Function.comp_def]

/-- What code that has a header begins with: the header with plain line ends, and an empty line. -/
theorem toList_render_header (header : String) (ops : List Op) :
    ∃ rest, (Code.render (headerOps (some header) ++ ops)).toList =
      ended (bareFeeds header.toList) ++ '\n' :: rest := by
  obtain ⟨added, hadded⟩ := (Code.run {} (headerOps (some header))).exists_lines_run ops
  rw [run_headerOps] at hadded
  have hne : (Code.run {} (headerOps (some header) ++ ops)).lines ≠ #[] := by
    rw [Code.run_append, run_headerOps, hadded]
    simp
  refine ⟨unlines (added.toList.map String.toList), ?_⟩
  rw [Code.render, Code.toList_finish hne, Code.run_append, run_headerOps, hadded,
    ← unlines_logicalLines]
  simp [Function.comp_def]

theorem isPrefix_render_header_iff {header : String} {ops : List Op} :
    header.toList <+: (Code.render (headerOps (some header) ++ ops)).toList ↔
      ¬ ['\r', '\n'] <:+: header.toList := by
  obtain ⟨rest, hrest⟩ := toList_render_header header ops
  obtain ⟨lastEnd, hlast⟩ := exists_ended_eq (bareFeeds header.toList)
  rw [hrest, hlast, List.append_assoc]
  exact isPrefix_bareFeeds_append_iff

end Js

open Js Text

theorem exists_ops_of_generate {g : Grammar} {o : Options} {code : String}
    (h : generate g o = .ok code) :
    ∃ ops, code = Code.render (headerOps o.header ++ ops) := by
  obtain ⟨o', p, ho', -, -, hp, rfl, -⟩ := exists_of_compileDefault_ok h
  obtain ⟨startRules, -, rfl⟩ := Options.resolve_eq_ok_iff.1 ho'
  obtain ⟨hoptions, -⟩ := ParserModule.generate_eq_ok hp
  rw [ParserModule.render, ParserModule.ops, hoptions]
  simp only [List.append_assoc]
  exact ⟨_, rfl⟩

/-- The code begins with the header, with plain line ends and an empty line behind it.  This is the
header as it was given exactly if no carriage return stands right before a line feed in it. -/
theorem generate_header {g : Grammar} {o : Options} {header code : String}
    (ho : o.header = some header) (h : generate g o = .ok code) :
    (∃ rest, code.toList = ended (bareFeeds header.toList) ++ '\n' :: rest) ∧
    (header.toList <+: code.toList ↔ ¬ ['\r', '\n'] <:+: header.toList) := by
  obtain ⟨ops, rfl⟩ := exists_ops_of_generate h
  rw [ho]
  exact ⟨toList_render_header header ops, isPrefix_render_header_iff⟩

/-- One rule, for one character. -/
def Grammar.oneCharacter : Grammar where
  rules := [⟨"s", .any, default⟩]

theorem exists_generate_oneCharacter (header : String) :
    ∃ code, generate .oneCharacter { header := some header } = .ok code := by
  have hoptions : ({ header := some header } : Options).resolve .oneCharacter =
      .ok { startRules := ["s"], header := some header } := rfl
  obtain ⟨p, -, hresult, -⟩ := compileDefault_of_wellFormed hoptions (List.cons_ne_nil _ _)
    (by decide)
  exact ⟨p.render, hresult⟩

/-- Empty lines, carriage returns elsewhere and a last line that is not ended go out as they are. -/
theorem generate_header_verbatim :
    ∃ code, generate .oneCharacter { header := some "// a\n\n\r// b\r\r" } = .ok code ∧
      "// a\n\n\r// b\r\r".toList <+: code.toList := by
  obtain ⟨code, hcode⟩ := exists_generate_oneCharacter "// a\n\n\r// b\r\r"
  have hplain : ¬ ['\r', '\n'] <:+: "// a\n\n\r// b\r\r".toList := by
    simp [crlf_isInfix_cons_iff]
  exact ⟨code, hcode, (generate_header rfl hcode).2.2 hplain⟩

/-- A carriage return right before a line feed is lost. -/
theorem generate_header_crlf :
    ∃ code, generate .oneCharacter { header := some "// a\r\n// b" } = .ok code ∧
      ¬ "// a\r\n// b".toList <+: code.toList ∧ "// a\n// b\n\n".toList <+: code.toList := by
  obtain ⟨code, hcode⟩ := exists_generate_oneCharacter "// a\r\n// b"
  obtain ⟨ops, rfl⟩ := exists_ops_of_generate hcode
  obtain ⟨rest, hrest⟩ := toList_render_header "// a\r\n// b" ops
  have hplain : ended (bareFeeds "// a\r\n// b".toList) = "// a\n// b\n".toList := by decide
  refine ⟨_, hcode, ?_, rest, ?_⟩
  · rw [isPrefix_render_header_iff, not_not]
    simp [crlf_isInfix_cons_iff]
  · rw [hrest, hplain]
    simp

end PegGen
