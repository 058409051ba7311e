import Mathlib.Algebra.Group.Nat.Defs
import PegGen.Js.Quoted
import PegGen.Proofs.Text.Ascii

/-!
# Reading string literals

How strict-mode JavaScript reads a double-quoted string literal.  The reader goes through the text
one character at a time.  What it has seen of an escape is its mode, and what an escape denotes is
given out when the escape is complete:

* a letter escape such as `\n`, or any other character, which then denotes itself;
* `\0`, after which a decimal digit is an error, as is any other digit after a backslash;
* `\x` and two, or `\u` and four hexadecimal digits, for one UTF-16 unit;
* `\u` and a code point in braces, for the units of the code point;
* a line end after a backslash, which denotes nothing.  Elsewhere a literal has no line end.

The literal of a text is read back as the units of the text unless the text has a NUL right before
a digit.  Then the escape of the NUL and the digit run together, and there is no literal at all
(`denoted?_stringLiteral`).
-/

namespace PegGen.Js

open Text

/-- Where a reader stands in a string literal. -/
inductive LiteralMode where
  /-- Between two characters. -/
  | plain
  /-- After a backslash. -/
  | escape
  /-- After `\0`. -/
  | zero
  /-- After a backslash and a carriage return. -/
  | lineEnd
  /-- After `\u`. -/
  | unicode
  /-- In an escape of fixed length that has more than `more` digits to come. -/
  | digits (more value : Nat)
  /-- In an escape in braces, with the value of the digits so far. -/
  | braced (value : Option Nat)
  /-- After the closing quote. -/
  | closed
deriving DecidableEq, Repr

namespace LiteralMode

/-- The value of a hexadecimal digit. -/
def hexValue? (c : Char) : Option Nat :=
  if '0' ≤ c ∧ c ≤ '9' then some (c.toNat - 48)
  else if 'A' ≤ c ∧ c ≤ 'F' then some (c.toNat - 55)
  else if 'a' ≤ c ∧ c ≤ 'f' then some (c.toNat - 87)
  else none

/-- The units of a code point, which may be a surrogate. -/
def codePointUnits (n : Nat) : List Nat :=
  if n < 0x10000 then [n]
  else [0xD800 + (n - 0x10000) / 0x400, 0xDC00 + (n - 0x10000) % 0x400]

/-- The units of a character after a backslash that begins no longer escape. -/
def letterUnits (c : Char) : List Nat :=
  if c = 'b' then [0x08]
  else if c = 't' then [0x09]
  else if c = 'n' then [0x0A]
  else if c = 'v' then [0x0B]
  else if c = 'f' then [0x0C]
  else if c = 'r' then [0x0D]
  else charUnits c

/-- The mode after a character that stands between two others, and the units it denotes. -/
def afterPlain (c : Char) : Option (LiteralMode × List Nat) :=
  if c = '"' then some (closed, [])
  else if c = '\\' then some (escape, [])
  else if c = '\n' ∨ c = '\r' then none
  else some (plain, charUnits c)

/-- The mode after the character that follows a backslash. -/
def afterEscape (c : Char) : Option (LiteralMode × List Nat) :=
  if c = '0' then some (zero, [0])
  else if c.isDigit then none
  else if c = 'x' then some (digits 1 0, [])
  else if c = 'u' then some (unicode, [])
  else if c = '\r' then some (lineEnd, [])
  else if c = '\n' ∨ c = '\u2028' ∨ c = '\u2029' then some (plain, [])
  else some (plain, letterUnits c)

/-- The mode after a digit of an escape of fixed length. -/
def afterDigit (more value : Nat) (c : Char) : Option (LiteralMode × List Nat) :=
  (hexValue? c).map fun d =>
    match more with
    | 0 => (plain, [16 * value + d])
    | more + 1 => (digits more (16 * value + d), [])

/-- The mode after a character of an escape in braces. -/
def afterBraced (value : Option Nat) (c : Char) : Option (LiteralMode × List Nat) :=
  if c = '\x7d' then value.map fun n => (plain, codePointUnits n)
  else
    (hexValue? c).bind fun d =>
      let n := 16 * value.getD 0 + d
      if n ≤ 0x10FFFF then some (braced (some n), []) else none

/-- The mode after one more character, and the units that are denoted by then. -/
def next : LiteralMode → Char → Option (LiteralMode × List Nat)
  | plain, c => afterPlain c
  | escape, c => afterEscape c
  | zero, c => if c.isDigit then none else afterPlain c
  | lineEnd, c => if c = '\n' then some (plain, []) else afterPlain c
  | unicode, c => if c = '\x7b' then some (braced none, []) else afterDigit 3 0 c
  | digits more value, c => afterDigit more value c
  | braced value, c => afterBraced value c
  | closed, _ => none

/-- The units denoted by the rest of a literal, if it is complete. -/
def read? : LiteralMode → List Char → Option (List Nat)
  | closed, [] => some []
  | _, [] => none
  | mode, c :: s =>
      match mode.next c with
      | none => none
      | some (mode, units) => (mode.read? s).map (units ++ ·)

end LiteralMode

/-- The UTF-16 units that a text denotes as a double-quoted string literal in strict mode.  There
are none if it is not a complete literal. -/
def denoted? (literal : String) : Option (List Nat) :=
  match literal.toList with
  | '"' :: s => LiteralMode.plain.read? s
  | _ => none

/-! ## Escapes -/

namespace LiteralMode

/-- A character is read, and then the others in the mode that it leads to. -/
theorem read?_cons {mode mode' : LiteralMode} {c : Char} {units : List Nat}
    (h : mode.next c = some (mode', units)) (s : List Char) :
    mode.read? (c :: s) = (mode'.read? s).map (units ++ ·) := by
  rw [read?, h]

/-- A character that denotes nothing by itself. -/
theorem read?_cons_silent {mode mode' : LiteralMode} {c : Char}
    (h : mode.next c = some (mode', [])) (s : List Char) :
    mode.read? (c :: s) = mode'.read? s := by
  rw [read?_cons h]
  simp

theorem read?_cons_none {mode : LiteralMode} {c : Char} (h : mode.next c = none) (s : List Char) :
    mode.read? (c :: s) = none := by
  rw [read?, h]

theorem hexValue?_hexDigit {d : Nat} (h : d < 16) : hexValue? (hexDigit d) = some d := by
  revert d
  decide

theorem hexDigit_ne_brace {d : Nat} (h : d < 16) : hexDigit d ≠ '\x7b' := by
  revert d
  decide

/-- A digit on the way adds to the value. -/
theorem next_digits {d : Nat} (h : d < 16) (more value : Nat) :
    (digits (more + 1) value).next (hexDigit d) = some (digits more (16 * value + d), []) := by
  rw [next, afterDigit, hexValue?_hexDigit h]
  rfl

/-- The last digit completes the unit. -/
theorem next_lastDigit {d : Nat} (h : d < 16) (value : Nat) :
    (digits 0 value).next (hexDigit d) = some (plain, [16 * value + d]) := by
  rw [next, afterDigit, hexValue?_hexDigit h]
  rfl

/-- Digits are read from the left, while they are written from the right. -/
theorem read?_digits (width more value n : Nat) (s : List Char) :
    (digits (width + more) value).read? (hex width n ++ s) =
      (digits more (value * 16 ^ width + n % 16 ^ width)).read? s := by
  induction width generalizing more n s with
  | zero => simp [hex, Nat.mod_one]
  | succ width ih =>
      have hd : n % 16 < 16 := Nat.mod_lt _ (by decide)
      have hvalue : 16 * (value * 16 ^ width + n / 16 % 16 ^ width) + n % 16 =
          value * 16 ^ (width + 1) + n % 16 ^ (width + 1) := by
        rw [Nat.pow_succ, Nat.mul_comm (16 ^ width) 16, Nat.mod_mul, Nat.mul_add,
          Nat.mul_left_comm]
        omega
      rw [hex, List.append_assoc, Nat.add_assoc, Nat.add_comm 1 more, ih, List.cons_append,
        List.nil_append, read?_cons_silent (next_digits hd more _), hvalue]

/-- As many digits as are still to come complete an escape. -/
theorem read?_hex {width n : Nat} (h : n < 16 ^ (width + 1)) (s : List Char) :
    (digits width 0).read? (hex (width + 1) n ++ s) = (plain.read? s).map (n :: ·) := by
  have hd : n % 16 < 16 := Nat.mod_lt _ (by decide)
  have hvalue : 16 * (0 * 16 ^ width + n / 16 % 16 ^ width) + n % 16 = n := by
    rw [Nat.pow_succ] at h
    rw [Nat.mod_eq_of_lt (by omega : n / 16 < 16 ^ width)]
    omega
  have hfirst := read?_digits width 0 0 (n / 16) ([hexDigit (n % 16)] ++ s)
  rw [Nat.add_zero] at hfirst
  rw [hex, List.append_assoc, hfirst, List.cons_append, List.nil_append,
    read?_cons (next_lastDigit hd _), hvalue]
  rfl

/-- An escape by four digits is read as its unit.  None of them is a brace, with which a code point
would begin. -/
theorem read?_unitEscape {n : Nat} (h : n < 0x10000) (s : List Char) :
    plain.read? (unitEscape n ++ s) = (plain.read? s).map (n :: ·) := by
  have hbrace : hexDigit (n / 16 / 16 / 16 % 16) ≠ '\x7b' :=
    hexDigit_ne_brace (Nat.mod_lt _ (by decide))
  have hunicode : unicode.read? (hex 4 n ++ s) = (digits 3 0).read? (hex 4 n ++ s) := by
    show unicode.read? (hexDigit (n / 16 / 16 / 16 % 16) :: _) = (digits 3 0).read? (_ :: _)
    rw [read?, read?, next, if_neg hbrace]
    rfl
  have hplain : plain.next '\\' = some (escape, []) := rfl
  have hescape : escape.next 'u' = some (unicode, []) := by decide
  rw [unitEscape, List.cons_append, List.cons_append, read?_cons_silent hplain,
    read?_cons_silent hescape, hunicode, read?_hex h]

/-- Escapes are read one after the other. -/
theorem read?_unitEscapes {units : List Nat} (h : ∀ n ∈ units, n < 0x10000) (s : List Char) :
    plain.read? (units.flatMap unitEscape ++ s) = (plain.read? s).map (units ++ ·) := by
  induction units with
  | nil => simp
  | cons n units ih =>
      rw [List.flatMap_cons, List.append_assoc, read?_unitEscape (h n (.head _)),
        ih fun m hm => h m (.tail _ hm)]
      simp [Function.comp_def]

/-! ## Characters -/

theorem lt_of_mem_charUnits {c : Char} {n : Nat} (hn : n ∈ charUnits c) : n < 0x10000 := by
  have hvalid := toNat_valid c
  rw [charUnits] at hn
  split at hn
  next => simp_all
  next =>
    simp only [List.mem_cons, List.not_mem_nil, or_false] at hn
    omega

/-- The escapes of a character other than NUL: by one letter, by itself, by its value, by units. -/
theorem escapeChar_cases {c : Char} (hc : c ≠ '\x00') :
    (∃ l, escapeChar c = ['\\', l] ∧ escape.next l = some (plain, charUnits c)) ∨
    (escapeChar c = [c] ∧ plain.next c = some (plain, charUnits c)) ∨
    (escapeChar c = '\\' :: 'x' :: hex 2 c.toNat ∧ c.toNat ≤ 0xFF) ∨
    escapeChar c = (charUnits c).flatMap unitEscape := by
  have hletter : ∀ d l, c = d → escapeChar d = ['\\', l] →
      escape.next l = some (plain, charUnits d) →
      ∃ l, escapeChar c = ['\\', l] ∧ escape.next l = some (plain, charUnits c) := by
    rintro d l rfl hd hl
    exact ⟨l, hd, hl⟩
  by_cases h₁ : c = '\\'
  · exact .inl (hletter _ '\\' h₁ rfl (by decide))
  by_cases h₂ : c = '"'
  · exact .inl (hletter _ '"' h₂ rfl (by decide))
  by_cases h₃ : c = '\x08'
  · exact .inl (hletter _ 'b' h₃ rfl (by decide))
  by_cases h₄ : c = '\t'
  · exact .inl (hletter _ 't' h₄ rfl (by decide))
  by_cases h₅ : c = '\n'
  · exact .inl (hletter _ 'n' h₅ rfl (by decide))
  by_cases h₆ : c = '\x0b'
  · exact .inl (hletter _ 'v' h₆ rfl (by decide))
  by_cases h₇ : c = '\x0c'
  · exact .inl (hletter _ 'f' h₇ rfl (by decide))
  by_cases h₈ : c = '\r'
  · exact .inl (hletter _ 'r' h₈ rfl (by decide))
  right
  simp only [escapeChar, hc, h₁, h₂, h₃, h₄, h₅, h₆, h₇, h₈, if_false]
  split
  next => exact .inl ⟨rfl, by simp [next, afterPlain, h₁, h₂, h₅, h₈]⟩
  next =>
    split
    next h => exact .inr (.inl ⟨rfl, h⟩)
    next => exact .inr (.inr rfl)

/-- Any character but a NUL is read back as its units, whatever follows. -/
theorem read?_escapeChar {c : Char} (hc : c ≠ '\x00') (s : List Char) :
    plain.read? (escapeChar c ++ s) = (plain.read? s).map (charUnits c ++ ·) := by
  have hplain : plain.next '\\' = some (escape, []) := rfl
  rcases escapeChar_cases hc with ⟨l, heq, hl⟩ | ⟨heq, hnext⟩ | ⟨heq, hle⟩ | heq
  · rw [heq, List.cons_append, List.cons_append, read?_cons_silent hplain, read?_cons hl,
      List.nil_append]
  · rw [heq, List.cons_append, read?_cons hnext, List.nil_append]
  · have hescape : escape.next 'x' = some (digits 1 0, []) := by decide
    have hunits : charUnits c = [c.toNat] := if_pos (by omega)
    rw [heq, List.cons_append, List.cons_append, read?_cons_silent hplain,
      read?_cons_silent hescape, read?_hex (by omega : c.toNat < 16 ^ (1 + 1)), hunits]
    rfl
  · rw [heq, read?_unitEscapes fun n hn => lt_of_mem_charUnits hn]

/-- After the escape of a NUL a text must not begin with a digit. -/
theorem read?_escapeNul (s : List Char) :
    plain.read? (escapeChar '\x00' ++ s) = (zero.read? s).map (charUnits '\x00' ++ ·) := by
  have hplain : plain.next '\\' = some (escape, []) := rfl
  have hescape : escape.next '0' = some (zero, charUnits '\x00') := by decide
  show plain.read? ('\\' :: '0' :: s) = _
  rw [read?_cons_silent hplain, read?_cons hescape]

theorem escapeChar_of_isDigit {c : Char} (hc : c.isDigit) : escapeChar c = [c] := by
  have hlt : c.toNat < 128 := by
    simp only [Char.isDigit, Bool.and_eq_true, decide_eq_true_eq, UInt32.le_iff_toNat_le] at hc
    exact Nat.lt_of_le_of_lt hc.2 (by decide)
  exact forall_ascii (P := fun c => c.isDigit → escapeChar c = [c]) (by decide) hlt hc

/-- No digit may follow the escape of zero. -/
theorem zero_read?_of_isDigit {c : Char} (hc : c.isDigit) (s : List Char) :
    zero.read? (escapeChar c ++ s) = none := by
  have hnext : zero.next c = none := if_pos hc
  rw [escapeChar_of_isDigit hc]
  exact read?_cons_none hnext s

/-- Anything else is read as it would be elsewhere. -/
theorem zero_read?_cons {c : Char} (hc : ¬ c.isDigit) (s : List Char) :
    zero.read? (c :: s) = plain.read? (c :: s) := by
  have hnext : zero.next c = plain.next c := if_neg hc
  rw [read?, read?, hnext]

theorem zero_read?_of_not_isDigit {c : Char} (hc : ¬ c.isDigit) (s : List Char) :
    zero.read? (escapeChar c ++ s) = plain.read? (escapeChar c ++ s) := by
  have hbackslash : ¬ '\\'.isDigit := by decide
  by_cases hnul : c = '\x00'
  · subst hnul
    exact zero_read?_cons hbackslash _
  rcases escapeChar_cases hnul with ⟨l, heq, -⟩ | ⟨heq, -⟩ | ⟨heq, -⟩ | heq
  · rw [heq]
    exact zero_read?_cons hbackslash _
  · rw [heq]
    exact zero_read?_cons hc _
  · rw [heq]
    exact zero_read?_cons hbackslash _
  · rw [heq, charUnits]
    split
    · exact zero_read?_cons hbackslash _
    · exact zero_read?_cons hbackslash _

end LiteralMode

/-! ## Texts -/

/-- Somewhere in the text a digit stands right after a NUL. -/
def DigitAfterNul (s : List Char) : Prop :=
  ∃ d : Char, d.isDigit ∧ ['\x00', d] <:+: s

theorem not_digitAfterNul_nil : ¬ DigitAfterNul [] := by
  rintro ⟨d, -, h⟩
  simp at h

/-- There is a digit right after the first character, if that is zero, or further on. -/
theorem digitAfterNul_cons_iff {c : Char} {s : List Char} :
    DigitAfterNul (c :: s) ↔ (c = '\x00' ∧ s.head?.any Char.isDigit) ∨ DigitAfterNul s := by
  constructor
  · rintro ⟨d, hd, h⟩
    rcases List.infix_cons_iff.1 h with hfront | hlater
    · obtain ⟨rfl, r, rfl⟩ := List.cons_prefix_cons.1 hfront
      exact .inl ⟨rfl, by simpa using hd⟩
    · exact .inr ⟨d, hd, hlater⟩
  · rintro (⟨rfl, h⟩ | ⟨d, hd, h⟩)
    · cases s with
      | nil => simp at h
      | cons d s =>
          refine ⟨d, by simpa using h, List.IsPrefix.isInfix ?_⟩
          exact List.cons_prefix_cons.2 ⟨rfl, List.cons_prefix_cons.2 ⟨rfl, List.nil_prefix⟩⟩
    · exact ⟨d, hd, List.infix_cons_iff.2 (.inr h)⟩

instance decidableDigitAfterNul : DecidablePred DigitAfterNul
  | [] => .isFalse not_digitAfterNul_nil
  | c :: s =>
      haveI := decidableDigitAfterNul s
      decidable_of_iff ((c = '\x00' ∧ s.head?.any Char.isDigit) ∨ DigitAfterNul s)
        digitAfterNul_cons_iff.symm

/-- What the opening quote of the literal of a text leaves to be read. -/
def literalRest (s : List Char) : List Char :=
  s.flatMap escapeChar ++ ['"']

theorem literalRest_cons (c : Char) (s : List Char) :
    literalRest (c :: s) = escapeChar c ++ literalRest s := by
  rw [literalRest, List.flatMap_cons, List.append_assoc, literalRest]

/-- A character is read as its units, unless it is a zero with a digit behind it. -/
theorem read?_literalRest_cons (c : Char) (s : List Char) :
    LiteralMode.plain.read? (literalRest (c :: s)) =
      if c = '\x00' ∧ s.head?.any Char.isDigit then none
      else (LiteralMode.plain.read? (literalRest s)).map (charUnits c ++ ·) := by
  rw [literalRest_cons]
  by_cases hc : c = '\x00'
  · subst hc
    rw [LiteralMode.read?_escapeNul]
    cases s with
    | nil => rfl
    | cons d s =>
        rw [literalRest_cons]
        by_cases hd : d.isDigit
        · rw [LiteralMode.zero_read?_of_isDigit hd, if_pos ⟨rfl, by simpa using hd⟩]
          rfl
        · rw [LiteralMode.zero_read?_of_not_isDigit hd, if_neg (by simpa using hd)]
  · rw [LiteralMode.read?_escapeChar hc, if_neg fun h => hc h.1]

/-- Without a digit after a zero, a literal denotes its text. -/
theorem read?_literalRest {s : List Char} (h : ¬ DigitAfterNul s) :
    LiteralMode.plain.read? (literalRest s) = some (units s) := by
  induction s with
  | nil => rfl
  | cons c s ih =>
      rw [digitAfterNul_cons_iff, not_or] at h
      rw [read?_literalRest_cons, if_neg h.1, ih h.2]
      rfl

/-- With one, it denotes nothing. -/
theorem read?_literalRest_eq_none {s : List Char} (h : DigitAfterNul s) :
    LiteralMode.plain.read? (literalRest s) = none := by
  induction s with
  | nil => exact absurd h not_digitAfterNul_nil
  | cons c s ih =>
      rw [read?_literalRest_cons]
      rcases digitAfterNul_cons_iff.1 h with hhere | hlater
      · rw [if_pos hhere]
      · rw [ih hlater]
        simp

theorem toList_stringLiteral (text : String) :
    (stringLiteral text).toList = '"' :: literalRest text.toList := by
  simp [stringLiteral, stringEscape, literalRest]

theorem denoted?_quoted (text : String) :
    denoted? (stringLiteral text) = LiteralMode.plain.read? (literalRest text.toList) := by
  rw [denoted?, toList_stringLiteral]
  rfl

/-- The literal of a text denotes the units of the text if no digit stands right after a NUL in it,
and otherwise it is no literal. -/
theorem denoted?_stringLiteral (text : String) :
    (¬ DigitAfterNul text.toList →
      denoted? (stringLiteral text) = some (units text.toList)) ∧
    (DigitAfterNul text.toList → denoted? (stringLiteral text) = none) := by
  rw [denoted?_quoted]
  exact ⟨read?_literalRest, read?_literalRest_eq_none⟩

/-- The escape of a NUL runs together with the digit after it. -/
theorem denoted?_stringLiteral_nul_one :
    stringLiteral "\x001" = "\"\\01\"" ∧ denoted? (stringLiteral "\x001") = none ∧
      units "\x001".toList = [0x00, 0x31] := by
  decide

example : denoted? (stringLiteral "\x00a\n\"é😀") =
    some [0x00, 0x61, 0x0A, 0x22, 0xE9, 0xD83D, 0xDE00] := by decide

end PegGen.Js
