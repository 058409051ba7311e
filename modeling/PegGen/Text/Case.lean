import PegGen.Text.CaseTable

/-!
# Lower and upper case

Case mappings of single characters, and of a whole text to lower case.  A character may map to
several.  Only one mapping looks at its neighbours: a capital sigma at the end of a word becomes
a final sigma.  A word ends there when the nearest letter before the sigma is cased and there is
no cased letter right after it, where characters that do not take part in casing (accents, the
apostrophe) are passed over on both sides.
-/

namespace PegGen.Text

/-- A code point under a table of runs and a table of expansions. -/
def mapCodePoint (runs : List CaseRun) (expansions : List (Nat × List Nat)) (n : Nat) : List Nat :=
  match runs.findSome? (·.image? n) with
  | some m => [m]
  | none =>
      match expansions.find? (·.1 = n) with
      | some e => e.2
      | none => [n]

/-- The lower case form of a character on its own. -/
def lowerChar (c : Char) : List Char :=
  if c.toNat < 128 then [c.toLower]
  else (mapCodePoint lowerRuns lowerExpansions c.toNat).map Char.ofNat

/-- The upper case form of a character on its own. -/
def upperChar (c : Char) : List Char :=
  if c.toNat < 128 then [c.toUpper]
  else (mapCodePoint upperRuns upperExpansions c.toNat).map Char.ofNat

/-- Membership in a table of inclusive ranges of code points. -/
def inRanges (ranges : List (Nat × Nat)) (c : Char) : Bool :=
  ranges.any fun r => r.1 ≤ c.toNat && c.toNat ≤ r.2

/-- The first character that takes part in casing is a cased letter. -/
def startsCased (s : List Char) : Bool :=
  match s.dropWhile (inRanges caseIgnorableRanges) with
  | [] => false
  | c :: _ => inRanges casedRanges c

/-- The lower case form of a sigma, from the text before it (nearest first) and after it. -/
def lowerSigma (before after : List Char) : Char :=
  if startsCased before && !startsCased after then 'ς' else 'σ'

/-- The lower case form of a text that stands after `before` (nearest first). -/
def lowerAfter (before : List Char) : List Char → List Char
  | [] => []
  | c :: s =>
      (if c = 'Σ' then [lowerSigma before s] else lowerChar c) ++ lowerAfter (c :: before) s

/-- The lower case form of a text. -/
def lower (s : List Char) : List Char :=
  lowerAfter [] s

theorem lowerChar_of_lt {c : Char} (h : c.toNat < 128) : lowerChar c = [c.toLower] :=
  if_pos h

theorem upperChar_of_lt {c : Char} (h : c.toNat < 128) : upperChar c = [c.toUpper] :=
  if_pos h

/-! ## Tests -/

example : lower "Hi!".toList = "hi!".toList := by decide
example : lower "É".toList = "é".toList := by decide +kernel
example : upperChar 'ß' = ['S', 'S'] := by decide +kernel
example : lower "ΑΣ".toList = "ας".toList := by decide +kernel
example : lower "ΑΣΑ".toList = "ασα".toList := by decide +kernel
example : lower "Σ".toList = "σ".toList := by decide +kernel

end PegGen.Text
