import PegGen.Expectation.Describe
import PegGen.Proofs.Text.PrefixFree

/-!
# Descriptions tell expectations apart

A literal is described between quotes and a class between brackets, both in characters that may be
anything, the quotes and brackets included.  Still a description can be read in one way only:

* a character stands for itself or has an escape, by the letter after the backslash (`Escaped`);
* a literal ends at the first quote that is not part of an escape;
* a class is a row of marks: a caret in front if it is inverted, its characters, and a dash inside
  each range (`ClassMark`).  Carets, dashes and brackets that are characters of the class have an
  escape, so no mark is taken for another, and a dash is never the beginning of a part.

So two expectations that are more than a name of their own have the same description exactly when
they differ at most in whether case matters, which no description shows
(`Expectation.describe_eq_describe_iff`).
-/

namespace PegGen

namespace Text

/-! ## Escapes -/

/-- The character that a letter after a backslash stands for. -/
def letterMeaning (letter : Char) : Char :=
  if letter = '0' then '\x00'
  else if letter = 't' then '\t'
  else if letter = 'n' then '\n'
  else if letter = 'r' then '\r'
  else letter

/-- The backslash is special, and a special character after a backslash is no other escape. -/
def Unconfused (special : List Char) : Prop :=
  '\\' ∈ special ∧ ∀ c ∈ special, letterMeaning c = c ∧ c ≠ 'x'

instance (special : List Char) : Decidable (Unconfused special) :=
  @instDecidableAnd _ _ inferInstance (List.decidableBAll _ special)

/-- The forms in which a character is written. -/
inductive Escaped (special : List Char) (c : Char) : List Char → Prop where
  /-- The character itself. -/
  | plain (h : c ∉ special) : Escaped special c [c]
  /-- A letter after a backslash. -/
  | byLetter {letter : Char} (h : letterMeaning letter = c) (hx : letter ≠ 'x') :
      Escaped special c ['\\', letter]
  /-- Two digits after a backslash and an `x`. -/
  | byValue (h : c.toNat < 16 ^ 2) : Escaped special c ('\\' :: 'x' :: hex 2 c.toNat)

theorem toNat_lt_of_isControl {c : Char} (h : isControl c) : c.toNat < 16 ^ 2 := by
  simp only [isControl, Bool.or_eq_true, Bool.and_eq_true, decide_eq_true_eq] at h
  omega

theorem escaped_escapeControl {special : List Char} {c : Char} (hc : c ∉ special) :
    Escaped special c (escapeControl c) := by
  rw [escapeControl]
  split
  next h => exact .byLetter h.symm (by decide)
  split
  next h => exact .byLetter h.symm (by decide)
  split
  next h => exact .byLetter h.symm (by decide)
  split
  next h => exact .byLetter h.symm (by decide)
  split
  next h => exact .byValue (toNat_lt_of_isControl h)
  next => exact .plain hc

theorem escaped_escapeWith {special : List Char} (hspecial : Unconfused special) (c : Char) :
    Escaped special c (escapeWith special c) := by
  rw [escapeWith]
  split
  next hc => exact .byLetter (hspecial.2 c hc).1 (hspecial.2 c hc).2
  next hc => exact escaped_escapeControl hc

theorem Escaped.append_inj {special : List Char} (hspecial : '\\' ∈ special) {c d : Char}
    {written written' s t : List Char} (hc : Escaped special c written)
    (hd : Escaped special d written') (h : written ++ s = written' ++ t) : c = d ∧ s = t := by
  cases hc with
  | plain hc =>
      cases hd with
      | plain => exact List.cons.inj h
      | byLetter => exact absurd ((List.cons.inj h).1 ▸ hspecial) hc
      | byValue => exact absurd ((List.cons.inj h).1 ▸ hspecial) hc
  | byLetter hc hx =>
      cases hd with
      | plain hd => exact absurd ((List.cons.inj h).1 ▸ hspecial) hd
      | byLetter hd =>
          obtain ⟨rfl, hrest⟩ := List.cons.inj (List.cons.inj h).2
          exact ⟨hc.symm.trans hd, hrest⟩
      | byValue => exact absurd (List.cons.inj (List.cons.inj h).2).1 hx
  | byValue hc =>
      cases hd with
      | plain hd => exact absurd ((List.cons.inj h).1 ▸ hspecial) hd
      | byLetter _ hx => exact absurd (List.cons.inj (List.cons.inj h).2).1.symm hx
      | byValue hd =>
          obtain ⟨hvalue, hrest⟩ := hex_append_inj hc hd (List.cons.inj (List.cons.inj h).2).2
          exact ⟨Char.toNat_inj.1 hvalue, hrest⟩

theorem prefixFree_escapeWith {special : List Char} (hspecial : Unconfused special) :
    PrefixFree (escapeWith special) :=
  fun h => (escaped_escapeWith hspecial _).append_inj hspecial.1 (escaped_escapeWith hspecial _) h

/-- What is special does not stand for itself. -/
theorem neverBegins_escapeWith {special : List Char} (hspecial : Unconfused special) {mark : Char}
    (hmark : mark ∈ special) (hne : mark ≠ '\\') : NeverBegins (escapeWith special) mark := by
  intro c
  have hwritten := escaped_escapeWith hspecial c
  generalize escapeWith special c = written at hwritten
  cases hwritten with
  | plain hc => exact ⟨c, [], rfl, fun h => hc (h ▸ hmark)⟩
  | byLetter => exact ⟨'\\', _, rfl, hne.symm⟩
  | byValue => exact ⟨'\\', _, rfl, hne.symm⟩

/-! ## Literals -/

theorem toList_quoted (text : String) :
    (quoted text).toList = '"' :: (text.toList.flatMap escapeInLiteral ++ ['"']) := by
  simp [quoted, literalEscape]

theorem quoted_injective : Function.Injective quoted := by
  intro text text' h
  have hchars := congrArg String.toList h
  rw [toList_quoted, toList_quoted, List.cons.injEq] at hchars
  have hspecial : Unconfused ['\\', '"'] := by decide
  have hchar : PrefixFree escapeInLiteral := prefixFree_escapeWith hspecial
  have hend : NeverBegins escapeInLiteral '"' :=
    neverBegins_escapeWith hspecial (by decide) (by decide)
  exact String.toList_inj.1 (hchar.terminated_inj hend hchars.2)

end Text

open Text

/-! ## Classes -/

/-- What stands between the brackets of a class. -/
inductive ClassMark where
  /-- The caret of an inverted class. -/
  | caret
  /-- The dash inside a range. -/
  | dash
  /-- A character. -/
  | char (c : Char)

/-- A mark as it is written. -/
def ClassMark.write : ClassMark → List Char
  | caret => ['^']
  | dash => ['-']
  | char c => escapeInClass c

/-- The marks of a part. -/
def ClassPart.marks : ClassPart → List ClassMark
  | .char c => [.char c]
  | .range lo hi => [.char lo, .dash, .char hi]

/-- The marks of a class. -/
def CharClass.marks (k : CharClass) : List ClassMark :=
  (if k.inverted then [.caret] else []) ++ k.parts.flatMap ClassPart.marks

namespace ClassMark

theorem neverBegins_escapeInClass {mark : Char} (hmark : mark ∈ ['\\', ']', '^', '-'])
    (hne : mark ≠ '\\') : NeverBegins escapeInClass mark :=
  neverBegins_escapeWith (by decide) hmark hne

/-- The escape of a character is neither a caret nor a dash. -/
theorem write_char_append_ne {mark : Char} (hmark : mark ∈ ['\\', ']', '^', '-'])
    (hne : mark ≠ '\\') (c : Char) (s t : List Char) : (char c).write ++ s ≠ mark :: t := by
  obtain ⟨d, r, hd, hdne⟩ := neverBegins_escapeInClass hmark hne c
  intro h
  rw [write, hd] at h
  exact hdne (List.cons.inj h).1

theorem prefixFree_write : PrefixFree write := by
  intro a b s t h
  cases a with
  | caret =>
      cases b with
      | caret => exact ⟨rfl, (List.cons.inj h).2⟩
      | dash => exact absurd (List.cons.inj h).1 (by decide)
      | char c => exact absurd h.symm (write_char_append_ne (by decide) (by decide) c t s)
  | dash =>
      cases b with
      | caret => exact absurd (List.cons.inj h).1 (by decide)
      | dash => exact ⟨rfl, (List.cons.inj h).2⟩
      | char c => exact absurd h.symm (write_char_append_ne (by decide) (by decide) c t s)
  | char c =>
      cases b with
      | caret => exact absurd h (write_char_append_ne (by decide) (by decide) c s t)
      | dash => exact absurd h (write_char_append_ne (by decide) (by decide) c s t)
      | char d =>
          have hspecial : Unconfused ['\\', ']', '^', '-'] := by decide
          obtain ⟨rfl, hrest⟩ := prefixFree_escapeWith hspecial h
          exact ⟨rfl, hrest⟩

theorem neverBegins_write : NeverBegins write ']'
  | caret => ⟨'^', [], rfl, by decide⟩
  | dash => ⟨'-', [], rfl, by decide⟩
  | char c => neverBegins_escapeInClass (by decide) (by decide) c

end ClassMark

theorem ClassPart.toList_describe (part : ClassPart) :
    part.describe.toList = part.marks.flatMap ClassMark.write := by
  cases part <;> simp [describe, marks, ClassMark.write, classEscape]

theorem toList_joinWith_describe (parts : List ClassPart) :
    (joinWith "" (parts.map ClassPart.describe)).toList =
      (parts.flatMap ClassPart.marks).flatMap ClassMark.write := by
  cases parts with
  | nil => rfl
  | cons part parts =>
      simp [toList_joinWith_cons, ClassPart.toList_describe, List.flatMap_map, List.flatMap_assoc]

theorem CharClass.toList_describe (k : CharClass) :
    k.describe.toList = '[' :: (k.marks.flatMap ClassMark.write ++ [']']) := by
  cases hinverted : k.inverted <;>
    simp [describe, marks, hinverted, toList_joinWith_describe, ClassMark.write]

/-- Every part begins with a character. -/
theorem ClassPart.exists_marks_eq_cons (part : ClassPart) :
    ∃ c marks, part.marks = .char c :: marks := by
  cases part with
  | char c => exact ⟨c, [], rfl⟩
  | range lo hi => exact ⟨lo, [.dash, .char hi], rfl⟩

/-- So the marks of parts begin with a character. -/
theorem flatMap_marks_ne_cons {mark : ClassMark} (hmark : ∀ c, mark ≠ .char c)
    (parts : List ClassPart) (rest : List ClassMark) :
    parts.flatMap ClassPart.marks ≠ mark :: rest := by
  intro heq
  cases parts with
  | nil => cases heq
  | cons part parts =>
      obtain ⟨c, marks, hmarks⟩ := part.exists_marks_eq_cons
      rw [List.flatMap_cons, hmarks] at heq
      exact hmark c (List.cons.inj heq).1.symm

/-- Parts are known by their marks: what follows a character tells whether it begins a range. -/
theorem flatMap_marks_inj {parts parts' : List ClassPart}
    (h : parts.flatMap ClassPart.marks = parts'.flatMap ClassPart.marks) : parts = parts' := by
  have hdash : ∀ (parts : List ClassPart) rest, parts.flatMap ClassPart.marks ≠ .dash :: rest :=
    flatMap_marks_ne_cons fun _ => nofun
  induction parts generalizing parts' with
  | nil =>
      cases parts' with
      | nil => rfl
      | cons part' parts' =>
          obtain ⟨c, marks, hmarks⟩ := part'.exists_marks_eq_cons
          simp [hmarks] at h
  | cons part parts ih =>
      cases parts' with
      | nil =>
          obtain ⟨c, marks, hmarks⟩ := part.exists_marks_eq_cons
          simp [hmarks] at h
      | cons part' parts' =>
          simp only [List.flatMap_cons] at h
          cases part with
          | char c =>
              cases part' with
              | char d =>
                  obtain ⟨hchar, hrest⟩ := List.cons.inj h
                  cases hchar
                  rw [ih hrest]
              | range lo hi => exact absurd (List.cons.inj h).2 (hdash parts _)
          | range lo hi =>
              cases part' with
              | char c => exact absurd (List.cons.inj h).2.symm (hdash parts' _)
              | range lo' hi' =>
                  simp only [ClassPart.marks, List.cons_append, List.nil_append, List.cons.injEq,
                    ClassMark.char.injEq, true_and] at h
                  obtain ⟨rfl, rfl, hrest⟩ := h
                  rw [ih hrest]

/-- The marks of a class tell its parts, and whether it is inverted: only then do they begin with a
caret. -/
theorem CharClass.marks_inj {k k' : CharClass} (h : k.marks = k'.marks) :
    k.inverted = k'.inverted ∧ k.parts = k'.parts := by
  have hcaret : ∀ (parts : List ClassPart) rest, parts.flatMap ClassPart.marks ≠ .caret :: rest :=
    flatMap_marks_ne_cons fun _ => nofun
  simp only [marks] at h
  cases hk : k.inverted <;> cases hk' : k'.inverted <;> rw [hk, hk'] at h
  · exact ⟨rfl, flatMap_marks_inj h⟩
  · exact absurd h (hcaret k.parts _)
  · exact absurd h.symm (hcaret k'.parts _)
  · exact ⟨rfl, flatMap_marks_inj (List.cons.inj h).2⟩

theorem CharClass.eq_of_describe {k k' : CharClass} (h : k.describe = k'.describe) :
    k.inverted = k'.inverted ∧ k.parts = k'.parts := by
  have hchars := congrArg String.toList h
  rw [toList_describe, toList_describe, List.cons.injEq] at hchars
  have hcode : PrefixFree ClassMark.write := ClassMark.prefixFree_write
  exact marks_inj (hcode.terminated_inj ClassMark.neverBegins_write hchars.2)

/-! ## Expectations -/

namespace Expectation

/-- The expectation with case taken to matter. -/
def mindingCase : Expectation → Expectation
  | .literal text _ => .literal text false
  | .charClass k => .charClass { k with ignoreCase := false }
  | .any => .any
  | .endOfInput => .endOfInput
  | .other description => .other description

theorem describe_mindingCase (e : Expectation) : e.mindingCase.describe = e.describe := by
  cases e <;> rfl

/-- The first character of a description, by the shape of what is described. -/
def initial? : Kind → Option Char
  | .literal => some '"'
  | .charClass => some '['
  | .any => some 'a'
  | .endOfInput => some 'e'
  | .other => none

theorem head?_describe {e : Expectation} (he : e.kind ≠ .other) :
    e.describe.toList.head? = initial? e.kind := by
  cases e with
  | literal text ignoreCase =>
      rw [describe, toList_quoted]
      rfl
  | charClass k =>
      rw [describe, CharClass.toList_describe]
      rfl
  | any => decide
  | endOfInput => decide
  | other description => exact absurd rfl he

theorem kind_eq_of_describe {a b : Expectation} (ha : a.kind ≠ .other) (hb : b.kind ≠ .other)
    (h : a.describe = b.describe) : a.kind = b.kind := by
  have hinitial : ∀ kind kind', initial? kind = initial? kind' → kind = kind' := by
    intro kind kind'
    cases kind <;> cases kind' <;> decide
  refine hinitial _ _ ?_
  rw [← head?_describe ha, ← head?_describe hb, h]

theorem mindingCase_eq_of_describe {a b : Expectation} (ha : a.kind ≠ .other)
    (hb : b.kind ≠ .other) (h : a.describe = b.describe) : a.mindingCase = b.mindingCase := by
  have hkind := kind_eq_of_describe ha hb h
  cases a <;> cases b <;> try cases hkind
  case literal.literal text ignoreCase text' ignoreCase' =>
    rw [mindingCase, mindingCase, quoted_injective h]
  case charClass.charClass k k' =>
    obtain ⟨hinverted, hparts⟩ := CharClass.eq_of_describe h
    rw [mindingCase, mindingCase, hinverted, hparts]
  case any.any => rfl
  case endOfInput.endOfInput => rfl
  case other.other => exact absurd rfl ha

/-- Two expectations that are not just a name have the same description exactly when they are the
same up to whether case matters. -/
theorem describe_eq_describe_iff {a b : Expectation} (ha : a.kind ≠ .other)
    (hb : b.kind ≠ .other) : a.describe = b.describe ↔ a.mindingCase = b.mindingCase := by
  constructor
  · exact mindingCase_eq_of_describe ha hb
  · intro h
    rw [← describe_mindingCase a, h, describe_mindingCase]

/-- A range is described in another way than the three characters that it is written with, and in
the same way as that range where case matters. -/
theorem describe_eq_describe_iff_range :
    let range := charClass ⟨[.range '!' '^'], false, true⟩
    let characters := charClass ⟨[.char '!', .char '-', .char '^'], false, true⟩
    let cased := charClass ⟨[.range '!' '^'], false, false⟩
    range.kind ≠ .other ∧ characters.kind ≠ .other ∧ cased.kind ≠ .other ∧
      range.describe ≠ characters.describe ∧ range.describe = cased.describe := by
  intro range characters cased
  have hrange : range.kind ≠ .other := nofun
  have hcharacters : characters.kind ≠ .other := nofun
  have hcased : cased.kind ≠ .other := nofun
  have hdiffer : range.mindingCase ≠ characters.mindingCase := by
    simp [range, characters, mindingCase]
  exact ⟨hrange, hcharacters, hcased, mt (describe_eq_describe_iff hrange hcharacters).1 hdiffer,
    (describe_eq_describe_iff hrange hcased).2 rfl⟩

example : (charClass ⟨[], true, false⟩).describe = "[^]" ∧
    (charClass ⟨[.char '^'], false, false⟩).describe = "[\\^]" := by decide

end Expectation

end PegGen
