import PegGen.Text.Case

/-!
# Expectations

An expectation says what a parser would have accepted at a place where it gave up: a literal, a
character of a class, any character, the end of the input, or something known only by a
description.  The first four also describe input, so they can be matched against the text that is
left: `Expectation.matched?` gives the part at its front that they accept.
-/

namespace PegGen

/-- A member of a character class. -/
inductive ClassPart where
  /-- One character. -/
  | char (c : Char)
  /-- Every character from `lo` to `hi`.  If `hi` comes before `lo` there is none. -/
  | range (lo hi : Char)
deriving DecidableEq, Repr, Inhabited

/-- Membership of a character in a part of a class. -/
def ClassPart.contains : ClassPart → Char → Bool
  | .char only, c => c = only
  | .range lo hi, c => lo ≤ c && c ≤ hi

/-- A character class. -/
structure CharClass where
  /-- The members, in the order they are written. -/
  parts : List ClassPart
  /-- The class stands for the characters outside its parts. -/
  inverted : Bool
  /-- A character also counts by its lower and upper case forms. -/
  ignoreCase : Bool
deriving DecidableEq, Repr, Inhabited

namespace CharClass

/-- Some part has the character. -/
def hasChar (k : CharClass) (c : Char) : Bool :=
  k.parts.any (·.contains c)

/-- The parts have the character, or one of its case forms if case is ignored. -/
def covers (k : CharClass) (c : Char) : Bool :=
  k.hasChar c || (k.ignoreCase && (Text.lowerChar c ++ Text.upperChar c).any k.hasChar)

/-- The class accepts the character. -/
def accepts (k : CharClass) (c : Char) : Bool :=
  k.covers c != k.inverted

end CharClass

/-- What a failed match expected. -/
inductive Expectation where
  /-- An exact text, or one that differs from it in case only. -/
  | literal (text : String) (ignoreCase : Bool)
  /-- One character of a class. -/
  | charClass (k : CharClass)
  /-- Any one character. -/
  | any
  /-- Nothing left to parse. -/
  | endOfInput
  /-- Something that has a name of its own. -/
  | other (description : String)
deriving DecidableEq, Repr, Inhabited

namespace Expectation

/-- The shape of an expectation. -/
inductive Kind where
  | literal | charClass | any | endOfInput | other
deriving DecidableEq, Repr, Inhabited

/-- Every shape, in the order in which they are declared. -/
def Kind.all : List Kind :=
  [.literal, .charClass, .any, .endOfInput, .other]

/-- The word a shape is known by. -/
def Kind.tag : Kind → String
  | .literal => "literal"
  | .charClass => "class"
  | .any => "any"
  | .endOfInput => "end"
  | .other => "other"

/-- The shape of an expectation. -/
def kind : Expectation → Kind
  | .literal .. => .literal
  | .charClass .. => .charClass
  | .any => .any
  | .endOfInput => .endOfInput
  | .other .. => .other

/-- The word for the shape of an expectation. -/
def tag (e : Expectation) : String :=
  e.kind.tag

/-! ## Matching -/

/-- The front of `rest` that has the length of `text` and the same lower case form. -/
def matchIgnoringCase? (text rest : List Char) : Option (List Char) :=
  let candidate := rest.take text.length
  if candidate.length = text.length ∧ Text.lower candidate = Text.lower text then some candidate
  else none

/-- The part at the front of `rest` that the expectation accepts.  A description accepts
nothing. -/
def matched? (rest : List Char) : Expectation → Option (List Char)
  | .literal text false => if text.toList.isPrefixOf rest then some text.toList else none
  | .literal text true => matchIgnoringCase? text.toList rest
  | .charClass k => (rest.head?.filter k.accepts).map ([·])
  | .any => rest.head?.map ([·])
  | .endOfInput => if rest = [] then some [] else none
  | .other _ => none

/-- What is accepted stands at the front of what is left. -/
theorem exists_append_of_matched? {rest p : List Char} {e : Expectation}
    (h : e.matched? rest = some p) : ∃ r, rest = p ++ r := by
  match e with
  | .literal text false =>
      simp only [matched?] at h
      split at h
      · next hp =>
        obtain ⟨r, hr⟩ := List.isPrefixOf_iff_prefix.1 hp
        exact ⟨r, by rw [← Option.some.inj h, hr]⟩
      · cases h
  | .literal text true =>
      simp only [matched?, matchIgnoringCase?] at h
      split at h
      · exact ⟨rest.drop text.toList.length, by rw [← Option.some.inj h, List.take_append_drop]⟩
      · cases h
  | .charClass k =>
      cases rest with
      | nil => simp [matched?] at h
      | cons c rest =>
          obtain ⟨d, hd, rfl⟩ := Option.map_eq_some_iff.1 h
          rw [List.head?_cons, Option.filter_eq_some_iff] at hd
          exact ⟨rest, by rw [Option.some.inj hd.1]; rfl⟩
  | .any =>
      cases rest with
      | nil => simp [matched?] at h
      | cons c rest =>
          simp only [matched?, List.head?_cons, Option.map_some] at h
          exact ⟨rest, by rw [← Option.some.inj h]; rfl⟩
  | .endOfInput =>
      simp only [matched?] at h
      split at h
      · next hr => exact ⟨[], by rw [← Option.some.inj h, hr]; rfl⟩
      · cases h
  | .other _ => cases h

end Expectation

end PegGen
