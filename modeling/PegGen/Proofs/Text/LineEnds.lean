import PegGen.Text.Lines

/-!
# Lines and their ends

Writing lines and reading the lines of a template are nearly inverse to each other.  `unlines`
writes every line with a line feed behind it.  Reading gives the lines back if none of them holds a
line feed, and none ends in a carriage return, which would be taken for a part of the line end
(`logicalLines_unlines`).

The other way round, reading a template and writing its lines makes the line ends plain: a carriage
return right before a line feed goes away, and the last line is ended if it was not
(`unlines_logicalLines`).  So what is written begins with the template exactly if no carriage return
stands right before a line feed in it (`isPrefix_bareFeeds_append_iff`).

A text is a last line without a line feed, or a line, a line feed and another text.  Proofs follow
that (`lineByLine`).
-/

namespace PegGen.Text

/-! ## Line by line -/

/-- A text without line feeds is one line. -/
theorem splitLines_of_notMem {l : List Char} (h : '\n' ∉ l) : splitLines l = [l] := by
  induction l with
  | nil => rfl
  | cons c l ih =>
      rw [List.mem_cons, not_or] at h
      rw [splitLines, if_neg (Ne.symm h.1), ih h.2]

/-- A line ends at its line feed. -/
theorem splitLines_append {l : List Char} (h : '\n' ∉ l) (s : List Char) :
    splitLines (l ++ '\n' :: s) = l :: splitLines s := by
  induction l with
  | nil => rw [List.nil_append, splitLines, if_pos rfl]
  | cons c l ih =>
      rw [List.mem_cons, not_or] at h
      rw [List.cons_append, splitLines, if_neg (Ne.symm h.1), ih h.2]

/-- Without a line feed a line counts unless it is empty. -/
theorem logicalLines_of_notMem {l : List Char} (h : '\n' ∉ l) :
    logicalLines l = if l = [] then [] else [l] := by
  rw [logicalLines, splitLines_of_notMem h, closedLines]

/-- A line loses a carriage return in front of its line feed. -/
theorem logicalLines_append {l : List Char} (h : '\n' ∉ l) (s : List Char) :
    logicalLines (l ++ '\n' :: s) = dropReturn l :: logicalLines s := by
  rw [logicalLines, splitLines_append h, closedLines, logicalLines]
  exact splitLines_ne_nil s

/-- Induction on the lines of a text.  It goes along the characters, where a part of the first line
may have been read already. -/
@[elab_as_elim]
theorem lineByLine {motive : List Char → Prop} (s : List Char)
    (last : ∀ l, '\n' ∉ l → motive l)
    (line : ∀ l s, '\n' ∉ l → motive s → motive (l ++ '\n' :: s)) : motive s := by
  have hread : ∀ l, '\n' ∉ l → motive (l ++ s) := by
    induction s with
    | nil => exact fun l hl => by simpa using last l hl
    | cons c s ih =>
        intro l hl
        by_cases hc : c = '\n'
        · rw [hc]
          exact line l s hl (ih [] (by simp))
        · simpa using ih (l ++ [c]) (by simp [hl, Ne.symm hc])
  exact hread [] (by simp)

/-! ## Writing lines and reading them -/

/-- Lines with a line feed behind each. -/
def unlines (lines : List (List Char)) : List Char :=
  lines.flatMap (· ++ ['\n'])

@[simp] theorem unlines_nil : unlines [] = [] := rfl

@[simp] theorem unlines_cons (l : List Char) (lines : List (List Char)) :
    unlines (l :: lines) = l ++ '\n' :: unlines lines := by
  simp [unlines]

@[simp] theorem unlines_append (lines lines' : List (List Char)) :
    unlines (lines ++ lines') = unlines lines ++ unlines lines' :=
  List.flatMap_append

/-- Lines with line feeds between them and one at the end. -/
theorem toList_joinWith_newline {lines : List String} (h : lines ≠ []) :
    (joinWith "\n" lines ++ "\n").toList = unlines (lines.map String.toList) := by
  induction lines with
  | nil => exact absurd rfl h
  | cons l lines ih =>
      cases lines with
      | nil => simp
      | cons l' lines =>
          rw [joinWith_cons_cons, String.append_assoc, String.toList_append,
            ih (List.cons_ne_nil _ _)]
          simp

/-- The text can be a line of a template: there is no line end in it, and it does not end in a part
of one. -/
def IsLine (l : List Char) : Prop :=
  '\n' ∉ l ∧ l.getLast? ≠ some '\r'

instance (l : List Char) : Decidable (IsLine l) :=
  inferInstanceAs (Decidable ('\n' ∉ l ∧ l.getLast? ≠ some '\r'))

theorem IsLine.dropReturn {l : List Char} (h : IsLine l) : dropReturn l = l :=
  if_neg h.2

/-- Lines are read as they were written. -/
theorem logicalLines_unlines {lines : List (List Char)} (h : ∀ l ∈ lines, IsLine l) :
    logicalLines (unlines lines) = lines := by
  induction lines with
  | nil => rfl
  | cons l lines ih =>
      have hl := h l (.head _)
      rw [unlines_cons, logicalLines_append hl.1, hl.dropReturn, ih fun l hl => h l (.tail _ hl)]

/-! ## Reading lines and writing them -/

/-- The text without its carriage returns right before a line feed. -/
def bareFeeds : List Char → List Char
  | [] => []
  | c :: s => if c = '\r' ∧ s.head? = some '\n' then bareFeeds s else c :: bareFeeds s

/-- The text with its last line ended, if there is one that is not. -/
def ended (s : List Char) : List Char :=
  if s.getLast?.all (· = '\n') then s else s ++ ['\n']

theorem bareFeeds_of_notMem {l : List Char} (h : '\n' ∉ l) : bareFeeds l = l := by
  induction l with
  | nil => rfl
  | cons c l ih =>
      have hl : '\n' ∉ l := fun hmem => h (.tail _ hmem)
      rw [bareFeeds, if_neg fun hfeed => hl (List.mem_of_head? hfeed.2), ih hl]

/-- A carriage return in front of the line feed is dropped. -/
theorem bareFeeds_append {l : List Char} (h : '\n' ∉ l) (s : List Char) :
    bareFeeds (l ++ '\n' :: s) = dropReturn l ++ '\n' :: bareFeeds s := by
  induction l with
  | nil => simp [bareFeeds, dropReturn]
  | cons c l ih =>
      have hl : '\n' ∉ l := fun hmem => h (.tail _ hmem)
      rw [List.cons_append, bareFeeds, ih hl]
      cases l with
      | nil => by_cases hc : c = '\r' <;> simp [dropReturn, hc]
      | cons d l =>
          have hd : d ≠ '\n' := fun hd => hl (hd ▸ .head _)
          rw [if_neg (by simp [hd])]
          simp only [dropReturn, List.getLast?_cons_cons, List.dropLast_cons_cons]
          split <;> rfl

/-- Only the last line may lack its line feed. -/
theorem ended_append (l s : List Char) : ended (l ++ '\n' :: s) = l ++ '\n' :: ended s := by
  rw [ended, ended, List.getLast?_append]
  cases s with
  | nil => simp
  | cons c s =>
      have hlast : ((c :: s).getLast?).or (l.getLast?) = (c :: s).getLast? := by
        simp [List.getLast?_cons]
      rw [List.getLast?_cons_cons, hlast]
      split <;> simp

/-- Writing the lines that were read gives the text again, without the carriage returns in front of
line feeds, and with a line feed at the end. -/
theorem unlines_logicalLines (s : List Char) : unlines (logicalLines s) = ended (bareFeeds s) := by
  induction s using lineByLine with
  | last l hl =>
      rw [logicalLines_of_notMem hl, bareFeeds_of_notMem hl, ended]
      by_cases hnil : l = []
      · simp [hnil]
      · have hlast : l.getLast hnil ≠ '\n' := fun hlast => hl (hlast ▸ List.getLast_mem hnil)
        simp [hnil, List.getLast?_eq_some_getLast, hlast]
  | line l s hl ih =>
      rw [logicalLines_append hl, bareFeeds_append hl, ended_append, unlines_cons, ih]

/-- A line feed at the end comes behind the text. -/
theorem exists_ended_eq (s : List Char) : ∃ rest, ended s = s ++ rest := by
  rw [ended]
  split
  · exact ⟨[], (List.append_nil s).symm⟩
  · exact ⟨['\n'], rfl⟩

/-- The two characters are in front, or further on. -/
theorem crlf_isInfix_cons_iff {c : Char} {s : List Char} :
    ['\r', '\n'] <:+: c :: s ↔ (c = '\r' ∧ s.head? = some '\n') ∨ ['\r', '\n'] <:+: s := by
  rw [List.infix_cons_iff, List.cons_prefix_cons, eq_comm]
  cases s with
  | nil => simp
  | cons d s => simp [List.cons_prefix_cons, eq_comm]

/-- A text is kept where its line ends are made plain, if they are plain.  Otherwise the first that
is not shows. -/
theorem isPrefix_bareFeeds_append_iff {s t : List Char} :
    s <+: bareFeeds s ++ t ↔ ¬ ['\r', '\n'] <:+: s := by
  induction s with
  | nil => simp
  | cons c s ih =>
      rw [crlf_isInfix_cons_iff, bareFeeds]
      split
      next hfeed =>
        obtain ⟨rfl, hhead⟩ := hfeed
        obtain ⟨s, rfl⟩ := List.head?_eq_some_iff.1 hhead
        simp [bareFeeds, List.cons_prefix_cons]
      next hfeed =>
        rw [List.cons_append, List.cons_prefix_cons, ih, not_or]
        simp [hfeed]

end PegGen.Text
