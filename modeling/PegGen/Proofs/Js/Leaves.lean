import PegGen.Grammar.Pool
import PegGen.Proofs.Js.Machine
import PegGen.Proofs.Text.Ascii

/-!
# Leaves on ASCII input

The test that the code of a leaf makes holds exactly where the expectation of the leaf accepts
something, as long as all texts are ASCII.  On other texts the two may differ: a generated parser
counts units where an expectation counts characters.
-/

namespace PegGen

/-! ## ASCII expectations -/

/-- The characters of the part are ASCII. -/
def ClassPart.IsAscii : ClassPart → Prop
  | .char c => c.toNat < 128
  | .range lo hi => lo.toNat < 128 ∧ hi.toNat < 128

instance : (part : ClassPart) → Decidable part.IsAscii
  | .char c => inferInstanceAs (Decidable (c.toNat < 128))
  | .range lo hi => inferInstanceAs (Decidable (lo.toNat < 128 ∧ hi.toNat < 128))

/-- The text or the class parts of the expectation are ASCII. -/
def Expectation.IsAscii : Expectation → Prop
  | .literal text _ => Text.IsAscii text.toList
  | .charClass k => ∀ part ∈ k.parts, part.IsAscii
  | .any | .endOfInput | .other _ => True

instance : (e : Expectation) → Decidable e.IsAscii
  | .literal text _ => inferInstanceAs (Decidable (Text.IsAscii text.toList))
  | .charClass k => List.decidableBAll ClassPart.IsAscii k.parts
  | .any => .isTrue trivial
  | .endOfInput => .isTrue trivial
  | .other _ => .isTrue trivial

/-- The literals and class parts of the grammar are ASCII. -/
def Grammar.IsAscii (g : Grammar) : Prop :=
  ∀ e ∈ g.expectations, e.IsAscii

instance (g : Grammar) : Decidable g.IsAscii :=
  List.decidableBAll Expectation.IsAscii g.expectations

/-! ## Literals that can be written -/

/-- The text of a literal is not cut by its own escapes: no digit stands right after a NUL. -/
def Expectation.Quotable : Expectation → Prop
  | .literal text _ => ¬ Js.DigitAfterNul text.toList
  | .charClass _ | .any | .endOfInput | .other _ => True

instance : (e : Expectation) → Decidable e.Quotable
  | .literal text _ => inferInstanceAs (Decidable (¬ Js.DigitAfterNul text.toList))
  | .charClass _ | .any | .endOfInput | .other _ => .isTrue trivial

/-- The literals of the grammar can be written as string literals. -/
def Grammar.Quotable (g : Grammar) : Prop :=
  ∀ e ∈ g.expectations, e.Quotable

instance (g : Grammar) : Decidable g.Quotable :=
  List.decidableBAll Expectation.Quotable g.expectations

namespace Js

open Text

/-! ## Case conversion -/

theorem convertStretches_cons {convert : List Char → List Char} {stretch : List Char} {u : Nat}
    (hu : u < 128) (us : List Nat) :
    convertStretches convert stretch (u :: us) =
      convertStretches convert (stretch ++ [Char.ofNat u]) us := by
  have hhigh : isHighHalf u = false := by simp [isHighHalf]; omega
  have hlow : isLowHalf u = false := by simp [isLowHalf]; omega
  cases us with
  | nil => simp [convertStretches, hhigh, hlow]
  | cons v us => simp [convertStretches, hhigh, hlow]

/-- An ASCII text is converted as one stretch. -/
theorem convertStretches_units {convert : List Char → List Char} {stretch s : List Char}
    (hs : IsAscii s) :
    convertStretches convert stretch (units s) = units (convert (stretch ++ s)) := by
  rw [units_of_isAscii hs]
  induction s generalizing stretch with
  | nil => rw [List.map_nil, convertStretches, List.append_nil]
  | cons c s ih =>
      rw [List.map_cons, convertStretches_cons (hs c (.head _)), Char.ofNat_toNat,
        ih fun d hd => hs d (.tail _ hd), List.append_assoc, List.singleton_append]

theorem toLowerCase_units {s : List Char} (hs : IsAscii s) :
    toLowerCase (units s) = units (lower s) :=
  convertStretches_units hs

theorem toUpperCase_units {s : List Char} (hs : IsAscii s) :
    toUpperCase (units s) = units (s.flatMap upperChar) :=
  convertStretches_units hs

/-! ## String literals -/

/-- Lower case makes no NUL and no digit, and unmakes none. -/
theorem digitAfterNul_lower_iff {s : List Char} (hs : IsAscii s) :
    DigitAfterNul (lower s) ↔ DigitAfterNul s := by
  have hnul : ∀ c : Char, c.toNat < 128 → (c.toLower = '\x00' ↔ c = '\x00') :=
    fun c hc => forall_ascii (P := fun c => c.toLower = '\x00' ↔ c = '\x00') (by decide) hc
  have hdigit : ∀ c : Char, c.toNat < 128 → c.toLower.isDigit = c.isDigit :=
    fun c hc => forall_ascii (P := fun c => c.toLower.isDigit = c.isDigit) (by decide) hc
  rw [lower_of_isAscii hs]
  induction s with
  | nil => rfl
  | cons c s ih =>
      have hhead : (s.map Char.toLower).head?.any Char.isDigit = s.head?.any Char.isDigit := by
        cases s with
        | nil => rfl
        | cons d s => exact hdigit d (hs d (.tail _ (.head _)))
      have hlater : DigitAfterNul (s.map Char.toLower) ↔ DigitAfterNul s :=
        ih fun d hd => hs d (.tail _ hd)
      rw [List.map_cons, digitAfterNul_cons_iff, digitAfterNul_cons_iff, hnul c (hs c (.head _)),
        hhead, hlater]

/-- The literal that a text is compared with can be written if the text can. -/
theorem isSome_denoted?_comparedLiteral_iff {value : String} (hvalue : IsAscii value.toList)
    (ignoreCase : Bool) :
    (denoted? (quote (Expression.comparedLiteral value ignoreCase))).isSome ↔
      (Expectation.literal value ignoreCase).Quotable := by
  have hliteral : ∀ text : String, (denoted? (quote (stringEscape text))).isSome ↔
      ¬ DigitAfterNul text.toList := by
    intro text
    have hdenoted := denoted?_stringLiteral text
    constructor
    · intro hsome hdigit
      rw [quote, ← stringLiteral, hdenoted.2 hdigit] at hsome
      cases hsome
    · intro hdigit
      rw [quote, ← stringLiteral, hdenoted.1 hdigit]
      rfl
  cases ignoreCase with
  | false => exact hliteral value
  | true =>
      rw [Expression.comparedLiteral, if_pos rfl, hliteral, String.toList_ofList,
        digitAfterNul_lower_iff hvalue]
      rfl

/-! ## Literals -/

section Literals

variable {text : String} {rest : List Char}

/-- A literal is accepted where the next units are its own. -/
theorem matched?_literal (htext : IsAscii text.toList) (hrest : IsAscii rest) :
    (Expectation.literal text false).matched? rest =
      if units (rest.take text.toList.length) = units text.toList then some text.toList
      else none := by
  have hiff : text.toList.isPrefixOf rest = true ↔
      units (rest.take text.toList.length) = units text.toList := by
    rw [List.isPrefixOf_iff_prefix, List.prefix_iff_eq_take, units_inj (hrest.take _) htext,
      eq_comm]
  simp only [Expectation.matched?, hiff]

/-- Case conversion keeps the length, so that comparing lower case forms is enough. -/
theorem matched?_literalIgnoringCase (htext : IsAscii text.toList) (hrest : IsAscii rest) :
    (Expectation.literal text true).matched? rest =
      if toLowerCase (units (rest.take text.toList.length)) = units (lower text.toList) then
        some (rest.take text.toList.length)
      else none := by
  have htake := hrest.take text.toList.length
  have hiff : ((rest.take text.toList.length).length = text.toList.length ∧
        lower (rest.take text.toList.length) = lower text.toList) ↔
      toLowerCase (units (rest.take text.toList.length)) = units (lower text.toList) := by
    rw [toLowerCase_units htake, units_inj htake.lower htext.lower]
    refine and_iff_right_of_imp fun h => ?_
    rw [lower_of_isAscii htake, lower_of_isAscii htext] at h
    simpa only [List.length_map] using congrArg List.length h
  simp only [Expectation.matched?, Expectation.matchIgnoringCase?, hiff]

end Literals

/-! ## Classes -/

section Classes

variable {c : Char}

theorem partHas_units (hc : c.toNat < 128) {part : ClassPart} (hpart : part.IsAscii) :
    partHas (units [c]) part = part.contains c := by
  have hunits : units [c] = [c.toNat] := units_of_isAscii (by simpa [IsAscii] using hc)
  cases part with
  | char only =>
      rw [partHas, ClassPart.contains, hunits, charUnits_of_lt hpart]
      simp [Char.toNat_inj, eq_comm]
  | range lo hi =>
      rw [partHas, ClassPart.contains, hunits, charUnits_of_lt hpart.1, charUnits_of_lt hpart.2]
      simp [unitsLe, Char.le_def, UInt32.le_iff_toNat_le, Nat.le_iff_lt_or_eq]

/-- The candidates of a character, part by part, are its case forms. -/
theorem candidates_any {k : CharClass} (hk : (Expectation.charClass k).IsAscii)
    (hc : c.toNat < 128) :
    (k.parts.any fun part =>
      (if k.ignoreCase then [units [c], toLowerCase (units [c]), toUpperCase (units [c])]
        else [units [c]]).any (partHas · part)) = k.covers c := by
  have hlower : toLowerCase (units [c]) = units [c.toLower] := by
    rw [toLowerCase_units (by simpa [IsAscii] using hc),
      lower_of_isAscii (by simpa [IsAscii] using hc)]
    rfl
  have hupper : toUpperCase (units [c]) = units [c.toUpper] := by
    rw [toUpperCase_units (by simpa [IsAscii] using hc), List.flatMap_singleton,
      upperChar_of_lt hc]
  have hparts : ∀ d : Char, d.toNat < 128 →
      (k.parts.any fun part => partHas (units [d]) part) = k.hasChar d := by
    intro d hd
    rw [CharClass.hasChar, Bool.eq_iff_iff, List.any_eq_true, List.any_eq_true]
    exact exists_congr fun part => and_congr_right fun hpart => by
      rw [partHas_units hd (hk part hpart)]
  rw [CharClass.covers, lowerChar_of_lt hc, upperChar_of_lt hc, hlower, hupper]
  cases k.ignoreCase with
  | false => simp [hparts c hc]
  | true =>
      rw [← hparts c hc]
      simp only [if_true, List.any_cons, List.any_nil, Bool.or_false, Bool.true_and,
        List.cons_append, List.nil_append, ← hparts _ (toLower_lt hc), ← hparts _ (toUpper_lt hc)]
      rw [Bool.eq_iff_iff]
      simp only [Bool.or_eq_true, List.any_eq_true]
      grind

theorem matchesClass_units {k : CharClass} (hk : (Expectation.charClass k).IsAscii)
    (hc : c.toNat < 128) : matchesClass (units [c]) (.charClass k) = some (k.accepts c) := by
  have hne : units [c] ≠ [] := by
    rw [units_of_isAscii (by simpa [IsAscii] using hc)]
    exact nofun
  rw [matchesClass, if_neg hne, CharClass.accepts, ← candidates_any hk hc]

end Classes

end Js

end PegGen
