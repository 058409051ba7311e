import PegGen.Proofs.Js.StringLiteral

/-!
# Tokens

The text of an expression is read as a row of tokens: words, decimal integers, string literals and
marks.  The scanner goes through the text one character at a time.  What it has seen of a token that
may go on is its mode, and a token is given out as soon as it is known to be complete.

Three rules of JavaScript say where one token ends and the next begins.

* A token goes on as long as it can.  A word ends before the first character that is not part of
  a word.
* No word and no dot follows a number directly.  In `5.x` the dot would belong to the number.
* Between `++` or `--` and what it applies to there is no line end.

Words may have characters beyond ASCII.  Which ones, an `Alphabet` says.

`scan_of_pending` is the rule for texts that are put together: a mark after a complete text gives
the tokens of the text and then those that it would give by itself, unless one of the last two rules
forbids it.
-/

namespace PegGen.Js

/-- The characters beyond ASCII that stand in words. -/
structure Alphabet where
  /-- The character may begin a word. -/
  begins : Char → Bool
  /-- The character may stand further on in a word. -/
  continues : Char → Bool

/-- Words of ASCII characters only. -/
def Alphabet.ascii : Alphabet :=
  ⟨fun _ => false, fun _ => false⟩

/-- A change by one. -/
inductive Update where
  | increment | decrement
deriving DecidableEq, Repr

/-- A strict comparison. -/
inductive Comparison where
  | equal | notEqual
deriving DecidableEq, Repr

/-- A token. -/
inductive Token where
  /-- A name or a reserved word. -/
  | word (name : String)
  /-- A decimal integer. -/
  | number (digits : String)
  /-- A string literal, by what stands between its quotes. -/
  | quoted (source : String)
  | dot
  | comma
  | openBracket
  | closeBracket
  | openParen
  | closeParen
  /-- `++` or `--`. -/
  | update (u : Update)
  /-- `===` or `!==`. -/
  | compare (c : Comparison)
deriving DecidableEq, Repr

namespace Alphabet

variable (A : Alphabet)

/-- The character may begin a word. -/
def isStart (c : Char) : Bool :=
  c.isAlpha || c = '$' || c = '_' || (0x80 ≤ c.toNat && A.begins c)

/-- The character may stand further on in a word. -/
def isPart (c : Char) : Bool :=
  c.isAlphanum || c = '$' || c = '_' || (0x80 ≤ c.toNat && A.continues c)

end Alphabet

/-- The character ends a line. -/
def isLineEnd (c : Char) : Bool :=
  c = '\n' || c = '\r' || c = '\u2028' || c = '\u2029'

/-- The character is a blank. -/
def isBlank (c : Char) : Bool :=
  c = ' ' || c = '\t' || c = '\x0b' || c = '\x0c' || c = '\u00a0' || c = '\ufeff' ||
    c = '\u1680' || ('\u2000' ≤ c && c ≤ '\u200a') || c = '\u202f' || c = '\u205f' || c = '\u3000'

/-- Where a scanner stands. -/
inductive TokenMode where
  /-- Between tokens, and whether a line has ended since the last one. -/
  | gap (broken : Bool)
  /-- In a word, with its characters so far. -/
  | word (name : List Char)
  /-- In a number, with its digits so far. -/
  | number (digits : List Char)
  /-- In a string literal, with what has been read of it. -/
  | quoted (source : List Char) (mode : LiteralMode)
  /-- In a mark of several characters, with the next one and those after it. -/
  | mark (next : Char) (rest : List Char) (token : Token)
deriving DecidableEq, Repr

/-- Tokens in front of those that a scan gives. -/
def emit {α : Type} (ts : List Token) (r : Option (α × List Token)) : Option (α × List Token) :=
  r.map fun r => (r.1, ts ++ r.2)

namespace TokenMode

variable (A : Alphabet)

/-- The mode after a character with which a token may begin. -/
def start (broken : Bool) (c : Char) : Option (TokenMode × List Token) :=
  if isLineEnd c then some (gap true, [])
  else if isBlank c then some (gap broken, [])
  else if A.isStart c then some (word [c], [])
  else if c.isDigit then some (number [c], [])
  else if c = '"' then some (quoted [] .plain, [])
  else if c = '.' then some (gap false, [.dot])
  else if c = ',' then some (gap false, [.comma])
  else if c = '[' then some (gap false, [.openBracket])
  else if c = ']' then some (gap false, [.closeBracket])
  else if c = '(' then some (gap false, [.openParen])
  else if c = ')' then some (gap false, [.closeParen])
  else if c = '=' then some (mark '=' ['='] (.compare .equal), [])
  else if c = '!' then some (mark '=' ['='] (.compare .notEqual), [])
  -- on a line of its own an update has nothing to apply to
  else if broken then none
  else if c = '+' then some (mark '+' [] (.update .increment), [])
  else if c = '-' then some (mark '-' [] (.update .decrement), [])
  else none

/-- The mode after one more character, and the tokens that are complete by then. -/
def next : TokenMode → Char → Option (TokenMode × List Token)
  | gap broken, c => start A broken c
  | word name, c =>
      if A.isPart c then some (word (name ++ [c]), [])
      else emit [.word (.ofList name)] (start A false c)
  | number digits, c =>
      if c.isDigit then if digits = ['0'] then none else some (number (digits ++ [c]), [])
      else if A.isStart c || c = '.' then none
      else emit [.number (.ofList digits)] (start A false c)
  | quoted source mode, c =>
      (mode.next c).map fun r =>
        if r.1 = .closed then (gap false, [.quoted (.ofList source)])
        else (quoted (source ++ [c]) r.1, [])
  | mark expected rest token, c =>
      if c = expected then
        match rest with
        | [] => some (gap false, [token])
        | expected :: rest => some (mark expected rest token, [])
      else none

/-- The mode after some characters, and the tokens that are complete by then. -/
def scan : TokenMode → List Char → Option (TokenMode × List Token)
  | m, [] => some (m, [])
  | m, c :: s => (m.next A c).bind fun r => emit r.2 (r.1.scan s)

/-- The token that is complete if the text ends here. -/
def pending? : TokenMode → Option (List Token)
  | gap _ => some []
  | word name => some [.word (.ofList name)]
  | number digits => some [.number (.ofList digits)]
  | quoted .. => none
  | mark .. => none

/-- A line has ended since the last token. -/
def isBroken : TokenMode → Bool
  | gap broken => broken
  | _ => false

/-- More digits would belong to the last token. -/
def isNumber : TokenMode → Bool
  | number _ => true
  | _ => false

end TokenMode

/-- The tokens of a text. -/
def tokens? (A : Alphabet) (text : List Char) : Option (List Token) :=
  ((TokenMode.gap false).scan A text).bind fun r => r.1.pending?.map (r.2 ++ ·)

/-! ## Texts put together -/

theorem emit_emit {α : Type} (ts us : List Token) (r : Option (α × List Token)) :
    emit ts (emit us r) = emit (ts ++ us) r := by
  cases r <;> simp [emit]

@[simp] theorem emit_nil {α : Type} (r : Option (α × List Token)) : emit [] r = r := by
  cases r <;> rfl

@[simp] theorem emit_some {α : Type} (ts us : List Token) (a : α) :
    emit ts (some (a, us)) = some (a, ts ++ us) := rfl

theorem emit_bind {α β : Type} (ts : List Token) (r : Option (α × List Token))
    (f : α → Option (β × List Token)) :
    (emit ts r).bind (fun r => emit r.2 (f r.1)) = emit ts (r.bind fun r => emit r.2 (f r.1)) := by
  cases r with
  | none => rfl
  | some r => exact (emit_emit ts r.2 (f r.1)).symm

namespace TokenMode

variable {A : Alphabet}

/-- A text is scanned in two parts, from the mode where the first one ends. -/
theorem scan_append {m m' : TokenMode} {s : List Char} {ts : List Token}
    (h : m.scan A s = some (m', ts)) (t : List Char) :
    m.scan A (s ++ t) = emit ts (m'.scan A t) := by
  induction s generalizing m ts with
  | nil =>
      obtain ⟨rfl, rfl⟩ := Prod.mk.inj (Option.some.inj h)
      rw [List.nil_append, emit_nil]
  | cons c s ih =>
      obtain ⟨⟨m₁, us⟩, hnext, hrest⟩ := Option.bind_eq_some_iff.1 h
      obtain ⟨⟨m₂, vs⟩, hscan, heq⟩ := Option.map_eq_some_iff.1 hrest
      obtain ⟨rfl, rfl⟩ := Prod.mk.inj heq
      rw [List.cons_append, scan, hnext, Option.bind_some, ih hscan, emit_emit]

/-- A character that can be no part of a word. -/
def Separates (A : Alphabet) (c : Char) : Prop :=
  A.isStart c = false ∧ A.isPart c = false

theorem isDigit_eq_false {c : Char} (h : Separates A c) : c.isDigit = false := by
  have hpart := h.2
  simp only [Alphabet.isPart, Char.isAlphanum, Bool.or_eq_false_iff] at hpart
  exact hpart.1.1.1.2

/-- A character that separates completes the token that was pending. -/
theorem next_of_pending {m : TokenMode} {ts : List Token} (hm : m.pending? = some ts) {c : Char}
    (hc : Separates A c) (hdot : m.isNumber → c ≠ '.') :
    m.next A c = emit ts (start A m.isBroken c) := by
  cases m with
  | gap broken =>
      obtain rfl := Option.some.inj hm
      rw [emit_nil]
      rfl
  | word name =>
      obtain rfl := Option.some.inj hm
      rw [next, hc.2]
      rfl
  | number digits =>
      obtain rfl := Option.some.inj hm
      have hne : (c = '.') = False := eq_false (hdot rfl)
      simp [next, isDigit_eq_false hc, hc.1, hne, isBroken]
  | quoted => cases hm
  | mark => cases hm

/-- A character that belongs to no name or number completes what is pending. -/
theorem scan_of_pending {m : TokenMode} {ts : List Token} (hm : m.pending? = some ts) {c : Char}
    (hc : Separates A c) (hdot : m.isNumber → c ≠ '.') (s : List Char) :
    m.scan A (c :: s) = emit ts ((gap m.isBroken).scan A (c :: s)) := by
  rw [scan, next_of_pending hm hc hdot]
  exact emit_bind ts _ (scan A · s)

end TokenMode

open TokenMode

section Together

variable {A : Alphabet} {s t : List Char} {ts us : List Token}

/-- The text ends right behind a number. -/
def endsInNumber (A : Alphabet) (s : List Char) : Bool :=
  ((gap false).scan A s).any (·.1.isNumber)

/-- A line has ended behind the last token of the text. -/
def endsLine (A : Alphabet) (s : List Char) : Bool :=
  ((gap false).scan A s).any (·.1.isBroken)

/-- The text ends with a complete token that no further character can change. -/
def Closes (A : Alphabet) (s : List Char) (ts : List Token) : Prop :=
  (gap false).scan A s = some (gap false, ts)

/-- A text has the tokens that are complete while it is scanned, and what is pending at its end. -/
theorem tokens?_eq_some_iff : tokens? A s = some ts ↔ ∃ m done rest,
    (gap false).scan A s = some (m, done) ∧ m.pending? = some rest ∧ done ++ rest = ts := by
  simp [tokens?, Option.bind_eq_some_iff]

/-- What follows a complete text is scanned as if by itself. -/
theorem scan_append_of_tokens? (h : tokens? A s = some ts) {c : Char} (hc : Separates A c)
    (hdot : endsInNumber A s → c ≠ '.') (t : List Char) :
    (gap false).scan A (s ++ c :: t) = emit ts ((gap (endsLine A s)).scan A (c :: t)) := by
  obtain ⟨m, done, rest, hscan, hpending, rfl⟩ := tokens?_eq_some_iff.1 h
  have hnumber : endsInNumber A s = m.isNumber := by rw [endsInNumber, hscan]; rfl
  have hline : endsLine A s = m.isBroken := by rw [endsLine, hscan]; rfl
  rw [hnumber] at hdot
  rw [scan_append hscan, scan_of_pending hpending hc hdot, emit_emit, hline]

/-- Behind a text that closes its last token another one begins anew. -/
theorem Closes.append_complete (h : Closes A s ts) (ht : tokens? A t = some us) :
    tokens? A (s ++ t) = some (ts ++ us) := by
  obtain ⟨m, done, rest, hscan, hpending, rfl⟩ := tokens?_eq_some_iff.1 ht
  refine tokens?_eq_some_iff.2 ⟨m, ts ++ done, rest, ?_, hpending, List.append_assoc ..⟩
  rw [scan_append h, hscan, emit_some]

theorem Closes.complete (h : Closes A s ts) : tokens? A s = some ts :=
  tokens?_eq_some_iff.2 ⟨gap false, ts, [], h, rfl, List.append_nil ts⟩

/-- Two texts that close their last tokens do so together. -/
theorem Closes.append (h : Closes A s ts) (ht : Closes A t us) : Closes A (s ++ t) (ts ++ us) := by
  rw [Closes, scan_append h, ht, emit_some]

/-- A mark after a text, where the line may have ended before the mark. -/
theorem closes_of_tokens? (h : tokens? A s = some ts) {c : Char} (hc : Separates A c)
    (hdot : c ≠ '.') (ht : ∀ broken, (gap broken).scan A (c :: t) = some (gap false, us)) :
    Closes A (s ++ c :: t) (ts ++ us) := by
  rw [Closes, scan_append_of_tokens? h hc (fun _ => hdot), ht, emit_some]

/-- An update after a text: its line must not have ended. -/
theorem tokens?_update (h : tokens? A s = some ts) {c : Char} {u : Update} (hc : Separates A c)
    (hdot : c ≠ '.') (hstart : (gap false).scan A [c, c] = some (gap false, [.update u]))
    (hbroken : (gap true).scan A [c, c] = none) :
    tokens? A (s ++ [c, c]) = some (ts ++ [.update u]) ↔ endsLine A s = false := by
  have hscan := scan_append_of_tokens? h hc (fun _ => hdot) [c]
  cases hline : endsLine A s with
  | false =>
      rw [hline, hstart, emit_some] at hscan
      exact iff_of_true (Closes.complete hscan) rfl
  | true =>
      rw [hline, hbroken] at hscan
      simp [tokens?, hscan, emit]

/-- A dot after a text that does not end right behind a number. -/
theorem tokens?_dot (h : tokens? A s = some ts) (hnumber : endsInNumber A s = false)
    (ht : tokens? A t = some us) : tokens? A (s ++ '.' :: t) = some (ts ++ .dot :: us) := by
  have hcloses : Closes A (s ++ ['.']) (ts ++ [.dot]) := by
    rw [Closes, scan_append_of_tokens? h ⟨rfl, rfl⟩ (by simp [hnumber])]
    cases endsLine A s <;> rfl
  have htokens := hcloses.append_complete ht
  rwa [List.append_assoc, List.append_assoc] at htokens

/-- No dot stands right behind a number. -/
theorem endsInNumber_of_dot (h : tokens? A (s ++ '.' :: t) = some ts) :
    endsInNumber A s = false := by
  rw [endsInNumber, Option.any_eq_false]
  rintro ⟨m, done⟩ hscan
  cases m with
  | number digits =>
      have hnone : (number digits).scan A ('.' :: t) = none := rfl
      rw [tokens?, scan_append hscan, hnone] at h
      cases h
  | _ => rfl

end Together

end PegGen.Js
