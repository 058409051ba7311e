/-!
# Code units and hexadecimal digits

Some formats count and write a text in UTF-16 code units.  A character below `0x10000` is one
unit, any other a high and a low surrogate.  `hex` writes a number with a fixed number of upper
case hexadecimal digits.
-/

namespace PegGen.Text

/-- The UTF-16 code units of a character. -/
def charUnits (c : Char) : List Nat :=
  if c.toNat < 0x10000 then [c.toNat]
  else [0xD800 + (c.toNat - 0x10000) / 0x400, 0xDC00 + (c.toNat - 0x10000) % 0x400]

/-- The UTF-16 code units of a text. -/
def units (s : List Char) : List Nat :=
  s.flatMap charUnits

/-- The number of a character is in range and no surrogate. -/
theorem toNat_valid (c : Char) :
    c.toNat < 0xD800 ∨ (0xE000 ≤ c.toNat ∧ c.toNat < 0x110000) := by
  have hvalid := c.valid
  simp only [UInt32.isValidChar, Nat.isValidChar] at hvalid
  simp only [Char.toNat]
  omega

/-- A hexadecimal digit, upper case. -/
def hexDigit (d : Nat) : Char :=
  if d < 10 then Char.ofNat (48 + d) else Char.ofNat (55 + d)

/-- The last `width` hexadecimal digits of a number. -/
def hex : Nat → Nat → List Char
  | 0, _ => []
  | width + 1, n => hex width (n / 16) ++ [hexDigit (n % 16)]

@[simp] theorem length_hex (width n : Nat) : (hex width n).length = width := by
  induction width generalizing n with
  | zero => rfl
  | succ width ih => simp [hex, ih]

/-! ## Tests -/

example : units ['a', '😀'] = [0x61, 0xD83D, 0xDE00] := by decide
example : hex 4 0x3BB = "03BB".toList := by decide

end PegGen.Text
