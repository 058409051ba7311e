import Mathlib.Data.List.DropRight
import PegGen.Proofs.Parse.PositionOrder

/-!
# What a formatted error points at

The line and column of a position are counted, and the line that a formatted error shows is found
by cutting the input at its line feeds.  Both speak of the same line: it begins with what stands
before the position after the last line feed, and goes on up to the next line feed
(`Text.getElem?_splitOn_append`).

An error covers one character at most.  So there is one caret, whether the character is on the line,
is the line feed that ends it, or is missing (`SyntaxError.caretCount_after_head`).
-/

namespace PegGen

namespace Text

/-! ## Lines -/

theorem splitLines_eq_splitOn (s : List Char) : splitLines s = s.splitOn '\n' := by
  induction s with
  | nil => rfl
  | cons c s ih =>
      rw [splitLines, List.splitOn_cons_eq_if_modifyHead, ih]
      by_cases hc : c = '\n'
      · simp [hc]
      · simp only [hc, if_false, beq_iff_eq]
        cases h : s.splitOn '\n' with
        | nil => exact absurd h (List.splitOn_ne_nil _ _)
        | cons line lines => rfl

theorem length_splitOn (s : List Char) : (s.splitOn '\n').length = s.count '\n' + 1 := by
  induction s with
  | nil => rfl
  | cons c s ih =>
      rw [List.splitOn_cons_eq_if_modifyHead]
      by_cases hc : c = '\n'
      · simp [hc, ih]
      · simp [hc, ih]

/-- The first line goes up to the first line feed. -/
theorem getElem?_zero_splitOn (s : List Char) :
    (s.splitOn '\n')[0]? = some (s.takeWhile (· ≠ '\n')) := by
  induction s with
  | nil => rfl
  | cons c s ih =>
      rw [List.splitOn_cons_eq_if_modifyHead]
      by_cases hc : c = '\n'
      · simp [hc]
      · simp [hc, List.getElem?_modifyHead, ih]

theorem newline_not_mem_lastLine (s : List Char) : '\n' ∉ lastLine s := by
  intro h
  simpa using List.mem_rtakeWhile_imp h

/-- Before the last line stands nothing, or a line feed. -/
theorem exists_above_lastLine (s : List Char) :
    s = lastLine s ∨ ∃ above, s = above ++ '\n' :: lastLine s := by
  have happend : s.rdropWhile (· ≠ '\n') ++ lastLine s = s := List.rdropWhile_append_rtakeWhile
  rcases List.eq_nil_or_concat (s.rdropWhile (· ≠ '\n')) with hnil | ⟨above, c, hconcat⟩
  · rw [hnil, List.nil_append] at happend
    exact .inl happend.symm
  · rw [List.concat_eq_append] at hconcat
    have hne : s.rdropWhile (· ≠ '\n') ≠ [] := by
      rw [hconcat]
      exact List.concat_ne_nil c above
    have hlast := List.rdropWhile_last_not _ _ hne
    simp only [hconcat] at hlast
    obtain rfl : c = '\n' := by simpa using hlast
    refine .inr ⟨above, ?_⟩
    rw [hconcat] at happend
    simpa using happend.symm

/-- The line with as many line feeds before it as there are in `before` is the one that `before`
ends in. -/
theorem getElem?_splitOn_append (before rest : List Char) :
    ((before ++ rest).splitOn '\n')[before.count '\n']? =
      some (lastLine before ++ rest.takeWhile (· ≠ '\n')) := by
  have hall : ∀ c ∈ lastLine before, decide (c ≠ '\n') = true := fun _ => List.mem_rtakeWhile_imp
  have hcount := List.count_eq_zero.2 (newline_not_mem_lastLine before)
  rw [← List.takeWhile_append_of_pos hall, ← getElem?_zero_splitOn]
  rcases exists_above_lastLine before with h | ⟨above, h⟩
  · rw [← h] at hcount ⊢
    rw [hcount]
  · generalize lastLine before = line at h hcount
    rw [h, List.append_assoc, List.cons_append, List.splitOn_append_cons_self,
      List.getElem?_append_right (by simp [length_splitOn, hcount])]
    simp [length_splitOn, hcount]

/-! ## Carriage returns -/

theorem length_dropReturns_le (line : List Char) : (dropReturns line).length ≤ line.length :=
  (List.rdropWhile_prefix _ line).length_le

end Text

open Text

theorem Position.ofOffset_after_head (before rest : List Char) :
    ofOffset (before ++ rest) (byteLength before + byteLength rest.head?.toList) =
      after (before ++ rest.head?.toList) := by
  rw [← byteLength_append]
  cases rest with
  | nil => simpa using ofOffset_append before []
  | cons c rest => simpa using ofOffset_append (before ++ [c]) rest

/-! ## Carets -/

namespace SyntaxError

theorem caretCount_of_line_eq {start stop : Position} (h : start.line = stop.line)
    (line : List Char) : caretCount ⟨start, stop⟩ line = max (stop.column - start.column) 1 := by
  simp [caretCount, h]

theorem caretCount_of_line_ne {start stop : Position} (h : start.line ≠ stop.line)
    (line : List Char) :
    caretCount ⟨start, stop⟩ line = max (line.length + 1 - start.column) 1 := by
  simp [caretCount, h]

/-- One caret is under the character that stands after a text, and one if there is none.  If the
character ends the line then the location ends on the next one, and the caret stands behind this
line. -/
theorem caretCount_after_head (before rest : List Char) :
    caretCount ⟨.after before, .after (before ++ rest.head?.toList)⟩
      (dropReturns (lastLine before ++ rest.takeWhile (· ≠ '\n'))) = 1 := by
  cases rest with
  | nil => simp [caretCount]
  | cons c rest =>
      by_cases hc : c = '\n'
      · subst hc
        have hlines : (Position.after before).line ≠ (Position.after (before ++ ['\n'])).line := by
          simp [Position.after]
        have hcolumn : (dropReturns (lastLine before)).length + 1 ≤
            (Position.after before).column := by
          have hlength := length_dropReturns_le (lastLine before)
          simp only [Position.after]
          omega
        rw [List.takeWhile_cons_of_neg (by simp), List.append_nil]
        show caretCount ⟨.after before, .after (before ++ ['\n'])⟩ _ = 1
        rw [caretCount_of_line_ne hlines]
        omega
      · have hlines : (Position.after before).line = (Position.after (before ++ [c])).line := by
          simp [Position.after, hc]
        have hcolumn : (Position.after (before ++ [c])).column =
            (Position.after before).column + 1 := by
          have hmem : '\n' ∉ [c] := by simpa using Ne.symm hc
          simp only [Position.after, lastLine_append hmem, List.length_append,
            List.length_singleton, Nat.add_assoc]
        show caretCount ⟨.after before, .after (before ++ [c])⟩ _ = 1
        rw [caretCount_of_line_eq hlines, hcolumn]
        omega

/-- An error at the character that stands after a text is shown with the line that the text ends
in. -/
theorem format_after_head {e : SyntaxError} {input : String} {before rest : List Char}
    (hinput : input.toList = before ++ rest)
    (hlocation : e.location = ⟨.after before, .after (before ++ rest.head?.toList)⟩)
    (source : String) :
    let number := toString e.location.start.line
    let margin := repeated number.length ' '
    e.format source input =
      "Error: " ++ e.message ++ "\n --> " ++ source ++ ":" ++ number ++ ":" ++
        toString e.location.start.column ++ "\n" ++ margin ++ " |\n" ++ number ++ " | " ++
        String.ofList (dropReturns (lastLine before ++ rest.takeWhile (· ≠ '\n'))) ++ "\n" ++
        margin ++ " | " ++ repeated (e.location.start.column - 1) ' ' ++ "^" := by
  intro number margin
  have hline : (splitLines input.toList)[e.location.start.line - 1]? =
      some (lastLine before ++ rest.takeWhile (· ≠ '\n')) := by
    rw [splitLines_eq_splitOn, hinput, hlocation, Position.after, Nat.add_sub_cancel_left,
      getElem?_splitOn_append]
  have hcarets : caretCount e.location
      (dropReturns (lastLine before ++ rest.takeWhile (· ≠ '\n'))) = 1 := by
    rw [hlocation, caretCount_after_head]
  rw [format, hline]
  simp only [excerpt, hcarets, Position.render, String.append_assoc]
  rfl

end SyntaxError

variable {τ V : Type}

/-- The error at a boundary, with its location by the texts before and after the character. -/
theorem State.Counts.error?_after_head {s : State τ} {input before rest : List Char}
    (hs : s.Counts input) (hinput : input = before ++ rest)
    (hpos : byteLength before = s.furthest.pos) :
    ∃ s', s.error? = some (.ofFailure s.furthest.expected.toList
      (rest.head?.map String.singleton)
      ⟨.after before, .after (before ++ rest.head?.toList)⟩, s') := by
  have hsplit := hs.input.trans hinput
  obtain ⟨log, herror⟩ := State.error?_of_split hs.cache hsplit hpos rfl
  rw [hsplit, ← hpos, Position.ofOffset_append, Position.ofOffset_after_head] at herror
  exact ⟨_, herror⟩

/-- At a furthest failure on a boundary the error is formatted with its message, the name of the
source with line and column, and the line of the input that has this number.  Carriage returns at
the end of the line are left out.  There is one caret, under the column.

The column is that of the character which was found.  If a line feed was found, or nothing, it is
the one after the line. -/
theorem format_points_at_failure [Tracer τ V] (c : Client τ V) (input : String) (tracer : Option τ)
    {m : Moment τ} (hm : m ∈ c.history input tracer)
    (hpos : IsBoundary m.state.furthest.pos input.toList) (source : String) :
    ∃ e s text, m.state.error? = some (e, s) ∧
      let number := e.location.start.line
      let column := e.location.start.column
      let margin := repeated (toString number).length ' '
      1 ≤ number ∧ 1 ≤ column ∧
      (input.toList.splitOn '\n')[number - 1]? = some text ∧
      e.format source input =
        "Error: " ++ e.message ++ "\n --> " ++ source ++ ":" ++ toString number ++ ":" ++
          toString column ++ "\n" ++ margin ++ " |\n" ++ toString number ++ " | " ++
          String.ofList (text.rdropWhile (· = '\r')) ++ "\n" ++ margin ++ " | " ++
          repeated (column - 1) ' ' ++ "^" ∧
      ((∃ ch, e.found = some (String.singleton ch) ∧ ch ≠ '\n' ∧ text[column - 1]? = some ch) ∨
        ((e.found = some "\n" ∨ e.found = none) ∧ column - 1 = text.length)) := by
  have hs := c.counts_of_mem_history input tracer hm
  obtain ⟨before, rest, hsplit, hlength⟩ := hpos
  obtain ⟨s', herror⟩ := hs.error?_after_head hsplit hlength
  refine ⟨_, s', lastLine before ++ rest.takeWhile (· ≠ '\n'), herror, Nat.le_add_right ..,
    Nat.le_add_right .., ?_, SyntaxError.format_after_head hsplit rfl source, ?_⟩
  · rw [hsplit]
    show _[1 + _ - 1]? = _
    rw [Nat.add_sub_cancel_left, getElem?_splitOn_append]
  · show (∃ ch, rest.head?.map String.singleton = _ ∧ _ ∧ _[1 + _ - 1]? = _) ∨ _ ∧ 1 + _ - 1 = _
    rw [Nat.add_sub_cancel_left]
    cases rest with
    | nil => exact .inr ⟨.inr rfl, by simp⟩
    | cons ch rest =>
        by_cases hch : ch = '\n'
        · subst hch
          exact .inr ⟨.inl rfl, by simp⟩
        · exact .inl ⟨ch, rfl, hch, by simp [hch]⟩

/-- Goes to an offset and fails there. -/
def Client.failing (pos : Nat) : Client (Recorder Unit) Unit :=
  .seek pos (.fail .endOfInput (.done (.ok none)))

/-- The failure is at the line feed after two carriage returns. -/
theorem format_points_at_line_feed :
    ∃ m ∈ (Client.failing 8).history "x\nλé\r\r\ny" none,
      IsBoundary m.state.furthest.pos "x\nλé\r\r\ny".toList ∧
      ∃ e s, m.state.error? = some (e, s) ∧ e.found = some "\n" ∧ e.location.start.column - 1 = 4 ∧
        e.format "p" "x\nλé\r\r\ny" =
          "Error: " ++ e.message ++ "\n --> p:2:5\n  |\n2 | λé\n  |     ^" := by
  have hlast : ((Client.failing 8).history "x\nλé\r\r\ny" none).getLast?.map (fun m =>
      (m.state.furthest.pos, m.state.error?.map fun r => (r.1.found, r.1.location.start))) =
      some (8, some (some "\n", ⟨2, 5, some 8⟩)) := by decide +kernel
  obtain ⟨m, hm, h⟩ := Option.map_eq_some_iff.1 hlast
  obtain ⟨hfurthest, herror⟩ := Prod.mk.inj h
  have hpos : IsBoundary m.state.furthest.pos "x\nλé\r\r\ny".toList := by
    rw [hfurthest]
    decide
  have hmem := List.mem_of_getLast? hm
  obtain ⟨e, s, text, he, -, -, htext, hformat, -⟩ :=
    format_points_at_failure (Client.failing 8) _ none hmem hpos "p"
  rw [he] at herror
  obtain ⟨hfound, hstart⟩ := Prod.mk.inj (Option.some.inj herror)
  rw [hstart] at htext hformat
  obtain rfl : "λé\r\r".toList = text := Option.some.inj ((by decide : _ = _).trans htext)
  refine ⟨m, hmem, hpos, e, s, he, hfound, congrArg (·.column - 1) hstart, hformat.trans ?_⟩
  simp only [String.append_assoc]
  congr 1

end PegGen
