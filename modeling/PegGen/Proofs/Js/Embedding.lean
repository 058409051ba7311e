import PegGen.Proofs.Js.Blocks
import PegGen.Proofs.Text.LineEnds

/-!
# Embedding code in code

The function of a rule is written into a buffer of its own, and its text goes into the module as a
template.  This is the same as writing it in place (`template_render`).

Two things are behind it.  What operations write depends on the buffer only through its indentation:
as long as they close blocks of their own, they write the same lines at the same depths everywhere
(`run_eq_written`).  And the text of a buffer, read as a template, has the lines of the buffer, so
embedding it indents each of them once more (`template_finish`).  Indentations add up
(`indented_indented`), and an empty line stays empty either way.
-/

namespace PegGen.Js.Code

open Text (IsLine unlines)

/-! ## Indentation -/

@[simp] theorem indented_zero (text : String) : indented 0 text = text := by
  rw [indented]
  split
  next h => exact h.symm
  · simp [Text.repeated]

theorem toList_indented {text : String} (h : text ≠ "") (indent : Nat) :
    (indented indent text).toList = List.replicate (2 * indent) ' ' ++ text.toList := by
  simp [indented, h, Text.repeated]

/-- Indentations add up, and an empty line has none. -/
theorem indented_indented (indent indent' : Nat) (text : String) :
    indented indent (indented indent' text) = indented (indent + indent') text := by
  by_cases h : text = ""
  · simp [indented, h]
  · have hne : indented indent' text ≠ "" := by
      simp [← String.toList_inj, toList_indented h, h]
    rw [← String.toList_inj, toList_indented hne, toList_indented h, toList_indented h,
      ← List.append_assoc, List.replicate_append_replicate, Nat.mul_add]

/-- An indented line is a line still. -/
theorem isLine_indented {text : String} (h : IsLine text.toList) (indent : Nat) :
    IsLine (indented indent text).toList := by
  by_cases hempty : text = ""
  · simpa [indented, hempty] using h
  · have hnil : text.toList ≠ [] := by simpa using hempty
    rw [toList_indented hempty]
    refine ⟨by simp [h.1], ?_⟩
    rw [List.getLast?_append_of_ne_nil _ hnil]
    exact h.2

/-! ## The text of a buffer -/

/-- The text of a buffer is its lines with a line feed behind each. -/
theorem toList_finish {c : Code} (h : c.lines ≠ #[]) :
    c.finish.toList = unlines (c.lines.toList.map String.toList) :=
  Text.toList_joinWith_newline (by simpa using h)

/-- Embedding the text of a buffer indents its lines once more. -/
theorem template_finish {c : Code} (hne : c.lines ≠ #[])
    (hlines : ∀ line ∈ c.lines, IsLine line.toList) (outer : Code) :
    outer.template c.finish =
      ⟨outer.lines ++ c.lines.map (indented outer.indent), outer.indent⟩ := by
  have hread : Text.logicalLines c.finish.toList = c.lines.toList.map String.toList := by
    rw [toList_finish hne]
    refine Text.logicalLines_unlines fun l hl => ?_
    obtain ⟨line, hline, rfl⟩ := List.mem_map.1 hl
    exact hlines line (by simpa using hline)
  have htexts : (Op.template c.finish).texts = c.lines.toList := by
    simp [Op.texts, hread, Function.comp_def]
  have hwritten : written outer.indent (c.lines.toList.map (0, ·)) =
      c.lines.map (indented outer.indent) := by
    simp [← Array.toList_inj, written, Function.comp_def]
  have happly := apply_eq outer (.template c.finish)
  rw [htexts] at happly
  exact hwritten ▸ happly

/-! ## What operations write -/

/-- Lines at their depths may be indented together. -/
theorem map_indented_written (indent : Nat) (lines : List (Nat × String)) :
    (written 0 lines).map (indented indent) = written indent lines := by
  simp [written, indented_indented, Function.comp_def]

/-! ## Operations that write one line -/

/-- The operation writes one line, and its text can be a line of a template.  A head is followed by
a brace, so it does not matter how it ends. -/
def Op.OneLine : Op → Prop
  | .line text | .closing text => IsLine text.toList
  | .opening head => '\n' ∉ head.toList
  | .otherwise => True
  | .template _ | .embed _ => False

instance : DecidablePred Op.OneLine
  | .line text | .closing text => inferInstanceAs (Decidable (IsLine text.toList))
  | .opening head => inferInstanceAs (Decidable ('\n' ∉ head.toList))
  | .otherwise => inferInstanceAs (Decidable True)
  | .template _ | .embed _ => inferInstanceAs (Decidable False)

/-- What such an operation writes is a line. -/
theorem Op.OneLine.exists_texts {op : Op} (h : op.OneLine) :
    ∃ text, op.texts = [text] ∧ IsLine text.toList := by
  cases op with
  | line text => exact ⟨text, rfl, h⟩
  | template text => exact h.elim
  | embed ops => exact h.elim
  | opening head =>
      have hhead : '\n' ∉ head.toList := h
      exact ⟨head ++ " \x7b", rfl, by simp [hhead], by simp⟩
  | otherwise => exact ⟨_, rfl, by decide⟩
  | closing text => exact ⟨text, rfl, h⟩

theorem length_placed {ops : List Op} (h : ∀ op ∈ ops, op.OneLine) (depth : Nat) :
    (placed depth ops).length = ops.length := by
  induction ops generalizing depth with
  | nil => rfl
  | cons op ops ih =>
      obtain ⟨text, htext, -⟩ := (h op (.head _)).exists_texts
      simp [placed, htext, ih (fun op hop => h op (.tail _ hop))]

/-- All that such operations write are lines. -/
theorem isLine_of_mem_placed {ops : List Op} (h : ∀ op ∈ ops, op.OneLine) {depth : Nat}
    {line : Nat × String} (hline : line ∈ placed depth ops) : IsLine line.2.toList := by
  induction ops generalizing depth with
  | nil => cases hline
  | cons op ops ih =>
      obtain ⟨text, htext, htextLine⟩ := (h op (.head _)).exists_texts
      rw [placed, htext, List.map_singleton, List.singleton_append, List.mem_cons] at hline
      rcases hline with rfl | hline
      · exact htextLine
      · exact ih (fun op hop => h op (.tail _ hop)) hline

/-- Operations that each write a line, and never close more blocks than they have opened, add the
same lines to a buffer if they are performed on it and if the text of a new buffer on which they
were performed is embedded. -/
theorem template_render {ops : List Op} (hne : ops ≠ []) (hlines : ∀ op ∈ ops, op.OneLine)
    (hclosed : (nesting? 0 ops).isSome) (outer : Code) :
    ∃ added : Array String, added.size = ops.length ∧
      (outer.run ops).lines = outer.lines ++ added ∧
      outer.template (render ops) = ⟨outer.lines ++ added, outer.indent⟩ := by
  obtain ⟨depth, hdepth⟩ := Option.isSome_iff_exists.1 hclosed
  have hsize : ∀ indent, (written indent (placed 0 ops)).size = ops.length := by
    simp [written, length_placed hlines]
  have hinner : run {} ops = ⟨written 0 (placed 0 ops), depth⟩ := by
    rw [run_eq_written hdepth (c := {}) (Nat.zero_add 0).symm]
    simp
  have hwritten : written 0 (placed 0 ops) ≠ #[] := by
    rw [ne_eq, ← Array.size_eq_zero_iff, hsize, List.length_eq_zero_iff]
    exact hne
  have hisLine : ∀ line ∈ written 0 (placed 0 ops), IsLine line.toList := by
    intro line hline
    obtain ⟨placedLine, hmem, rfl⟩ := List.mem_map.1 (List.mem_toArray.1 hline)
    exact isLine_indented (isLine_of_mem_placed hlines hmem) _
  refine ⟨written outer.indent (placed 0 ops), hsize _, ?_, ?_⟩
  · rw [run_eq_written hdepth rfl]
  · rw [render, hinner, template_finish hwritten hisLine, map_indented_written]

/-- Both cases of a test, an empty line, and a block that is left open. -/
theorem template_render_cases :
    let ops : List Op := [.opening "if (a)", .line "b();", .otherwise, .line "c();", .close,
      .line "", .opening "try\r"]
    let outer : Code := ⟨#["begin"], 1⟩
    (∀ op ∈ ops, op.OneLine) ∧ nesting? 0 ops = some 1 ∧
      (outer.run ops).lines = (outer.template (render ops)).lines ∧
      outer.template (render ops) = ⟨#["begin", "  if (a) \x7b", "    b();", "  \x7d else \x7b",
        "    c();", "  \x7d", "", "  try\r \x7b"], 1⟩ := by
  intro ops outer
  have hlines : ∀ op ∈ ops, op.OneLine := by decide
  obtain ⟨added, -, hrun, htemplate⟩ := template_render (List.cons_ne_nil _ _) hlines rfl outer
  refine ⟨hlines, rfl, by rw [hrun, htemplate], ?_⟩
  rw [htemplate, ← hrun]
  decide

end PegGen.Js.Code
