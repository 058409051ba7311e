import PegGen.Proofs.Js.StringLiteral
import PegGen.Proofs.Text.PrefixFree

/-!
# Declared expectations

The declaration of an expectation is a call with nested literals as arguments, and a literal may
contain anything, quotes, commas and brackets included.  Still no two expectations have the same
declaration.  All the parts of a declaration are written in prefix-free ways:

* the escape of a character, by the letter after the backslash (`EscapeForm`);
* a string literal, which ends at the first quote that is not part of an escape;
* a part of a class and the array of all parts, where the first character says what comes;
* the name of a constructor, up to the parenthesis.

Note that reading a literal as JavaScript does would not do here: a NUL before a digit denotes
nothing, but its escape is one nevertheless.

What is written is printable (`isPrintable_expectationDeclaration`), so a declaration is one line.
-/

namespace PegGen.Js

open Text LiteralMode

/-! ## Escapes -/

/-- The letter after the backslash in an escape of a character, and what comes after the letter. -/
inductive EscapeForm (c : Char) (letter : Char) : List Char → Prop where
  /-- The letter alone denotes the character. -/
  | byLetter {mode : LiteralMode} (h : escape.next letter = some (mode, charUnits c)) :
      EscapeForm c letter []
  /-- Two digits. -/
  | byValue (hletter : letter = 'x') (h : c.toNat ≤ 0xFF) : EscapeForm c letter (hex 2 c.toNat)
  /-- Four digits, and the escape of another unit if there is one. -/
  | byUnits (hletter : letter = 'u') {n : Nat} {units : List Nat} (h : charUnits c = n :: units) :
      EscapeForm c letter (hex 4 n ++ units.flatMap unitEscape)

theorem charUnits_ne_nil (c : Char) : charUnits c ≠ [] := by
  rw [charUnits]
  split <;> simp

/-- A character stands for itself, or has an escape. -/
theorem escapeChar_forms (c : Char) :
    (escapeChar c = [c] ∧ plain.next c = some (plain, charUnits c)) ∨
    ∃ letter rest, EscapeForm c letter rest ∧ escapeChar c = '\\' :: letter :: rest := by
  by_cases hnul : c = '\x00'
  · subst hnul
    have hzero : escape.next '0' = some (zero, charUnits '\x00') := by decide
    exact .inr ⟨'0', [], .byLetter hzero, rfl⟩
  rcases escapeChar_cases hnul with ⟨letter, heq, h⟩ | ⟨heq, h⟩ | ⟨heq, h⟩ | heq
  · exact .inr ⟨letter, [], .byLetter h, heq⟩
  · exact .inl ⟨heq, h⟩
  · exact .inr ⟨'x', _, .byValue rfl h, heq⟩
  · obtain ⟨n, units, hunits⟩ := List.exists_cons_of_ne_nil (charUnits_ne_nil c)
    refine .inr ⟨'u', _, .byUnits rfl hunits, ?_⟩
    rw [heq, hunits, List.flatMap_cons]
    rfl

/-- A character that has a single unit is that unit, and otherwise its first unit is a high half. -/
theorem charUnits_cons {c : Char} {n : Nat} {units : List Nat} (h : charUnits c = n :: units) :
    (n = c.toNat ∧ units.length = 0) ∨ (0xD800 ≤ n ∧ n < 0xDC00 ∧ units.length = 1) := by
  have hvalid := toNat_valid c
  rw [charUnits] at h
  split at h
  next =>
    obtain ⟨rfl, rfl⟩ := List.cons.inj h
    exact .inl ⟨rfl, rfl⟩
  next =>
    obtain ⟨rfl, rfl⟩ := List.cons.inj h
    exact .inr ⟨by omega, by omega, rfl⟩

/-- The first unit of a character tells whether there is another. -/
theorem length_eq_of_charUnits {c d : Char} {n : Nat} {units units' : List Nat}
    (hc : charUnits c = n :: units) (hd : charUnits d = n :: units') :
    units.length = units'.length := by
  have hvalid := toNat_valid c
  have hvalid' := toNat_valid d
  have hcases := charUnits_cons hc
  have hcases' := charUnits_cons hd
  omega

/-- As many escapes tell their units, whatever follows. -/
theorem unitEscapes_append_inj {units units' : List Nat} (hlength : units.length = units'.length)
    (hunits : ∀ n ∈ units, n < 0x10000) (hunits' : ∀ n ∈ units', n < 0x10000) {s t : List Char}
    (h : units.flatMap unitEscape ++ s = units'.flatMap unitEscape ++ t) :
    units = units' ∧ s = t := by
  induction units generalizing units' with
  | nil =>
      cases units' with
      | nil => exact ⟨rfl, h⟩
      | cons n' units' => cases hlength
  | cons n units ih =>
      cases units' with
      | nil => cases hlength
      | cons n' units' =>
          simp only [List.flatMap_cons, List.append_assoc, unitEscape, List.cons_append,
            List.cons.injEq, true_and] at h
          obtain ⟨rfl, hrest⟩ := hex_append_inj (hunits n (.head _)) (hunits' n' (.head _)) h
          obtain ⟨rfl, rfl⟩ := ih (Nat.succ.inj hlength) (fun m hm => hunits m (.tail _ hm))
            (fun m hm => hunits' m (.tail _ hm)) hrest
          exact ⟨rfl, rfl⟩

namespace EscapeForm

variable {c d letter : Char} {rest rest' s t : List Char}

/-- A letter that begins a longer escape denotes nothing yet. -/
theorem not_byLetter {mode mode' : LiteralMode} (h : escape.next letter = some (mode, charUnits c))
    (hlonger : escape.next letter = some (mode', [])) : False := by
  rw [hlonger] at h
  exact charUnits_ne_nil c (Prod.mk.inj (Option.some.inj h)).2.symm

/-- Escapes of the same form are of the same length, so they can be told apart. -/
theorem append_inj (hc : EscapeForm c letter rest) (hd : EscapeForm d letter rest')
    (h : rest ++ s = rest' ++ t) : c = d ∧ s = t := by
  have hx : escape.next 'x' = some (digits 1 0, []) := by decide
  have hu : escape.next 'u' = some (unicode, []) := by decide
  cases hc with
  | byLetter hnext =>
      cases hd with
      | byLetter hnext' =>
          rw [hnext] at hnext'
          have hunits := (Prod.mk.inj (Option.some.inj hnext')).2
          exact ⟨(charUnits_append_inj (congrArg (· ++ []) hunits)).1, h⟩
      | byValue hletter => exact (not_byLetter hnext (hletter ▸ hx)).elim
      | byUnits hletter => exact (not_byLetter hnext (hletter ▸ hu)).elim
  | byValue hletter hle =>
      cases hd with
      | byLetter hnext => exact (not_byLetter hnext (hletter ▸ hx)).elim
      | byValue _ hle' =>
          obtain ⟨hvalue, hrest⟩ := hex_append_inj (by omega) (by omega) h
          exact ⟨Char.toNat_inj.1 hvalue, hrest⟩
      | byUnits hletter' =>
          rw [hletter] at hletter'
          exact absurd hletter' (by decide)
  | byUnits hletter hunits =>
      cases hd with
      | byLetter hnext => exact (not_byLetter hnext (hletter ▸ hu)).elim
      | byValue hletter' =>
          rw [hletter] at hletter'
          exact absurd hletter' (by decide)
      | byUnits _ hunits' =>
          have hlt : ∀ m ∈ charUnits c, m < 0x10000 := fun m hm => lt_of_mem_charUnits hm
          have hlt' : ∀ m ∈ charUnits d, m < 0x10000 := fun m hm => lt_of_mem_charUnits hm
          rw [hunits] at hlt
          rw [hunits'] at hlt'
          rw [List.append_assoc, List.append_assoc] at h
          obtain ⟨rfl, hmore⟩ := hex_append_inj (hlt _ (.head _)) (hlt' _ (.head _)) h
          obtain ⟨rfl, hrest⟩ := unitEscapes_append_inj (length_eq_of_charUnits hunits hunits')
            (fun m hm => hlt m (.tail _ hm)) (fun m hm => hlt' m (.tail _ hm)) hmore
          have hsame : charUnits c = charUnits d := hunits.trans hunits'.symm
          exact ⟨(charUnits_append_inj (congrArg (· ++ []) hsame)).1, hrest⟩

end EscapeForm

/-- A character that stands for itself is no backslash. -/
theorem ne_backslash_of_next {c : Char} (h : plain.next c = some (plain, charUnits c)) :
    c ≠ '\\' := by
  rintro rfl
  exact absurd h (by decide)

/-- And it is no quote. -/
theorem ne_quote_of_next {c : Char} (h : plain.next c = some (plain, charUnits c)) : c ≠ '"' := by
  rintro rfl
  exact absurd h (by decide)

/-- How a character is written tells where it ends. -/
theorem prefixFree_escapeChar : PrefixFree escapeChar := by
  intro c d s t h
  rcases escapeChar_forms c with ⟨heq, hnext⟩ | ⟨letter, rest, hform, heq⟩ <;>
    rcases escapeChar_forms d with ⟨heq', hnext'⟩ | ⟨letter', rest', hform', heq'⟩ <;>
    rw [heq, heq'] at h
  · obtain ⟨hchar, hrest⟩ := List.cons.inj h
    exact ⟨hchar, hrest⟩
  · exact absurd (List.cons.inj h).1 (ne_backslash_of_next hnext)
  · exact absurd (List.cons.inj h).1.symm (ne_backslash_of_next hnext')
  · obtain ⟨rfl, hrest⟩ := List.cons.inj (List.cons.inj h).2
    exact hform.append_inj hform' hrest

theorem neverBegins_escapeChar : NeverBegins escapeChar '"' := by
  intro c
  rcases escapeChar_forms c with ⟨heq, hnext⟩ | ⟨letter, rest, -, heq⟩
  · exact ⟨c, [], heq, ne_quote_of_next hnext⟩
  · exact ⟨'\\', letter :: rest, heq, by decide⟩

/-! ## Literals -/

/-- A string literal ends at the first quote that is not written as an escape. -/
theorem prefixFree_stringLiteral : PrefixFree fun text => (stringLiteral text).toList := by
  intro text text' s t h
  simp only [toList_stringLiteral, List.cons_append, List.cons.injEq, true_and] at h
  obtain ⟨htext, hrest⟩ := prefixFree_escapeChar.terminated neverBegins_escapeChar h
  exact ⟨String.toList_inj.1 htext, hrest⟩

/-- The literal of a character. -/
def charLiteral (c : Char) : String :=
  stringLiteral (String.singleton c)

theorem prefixFree_charLiteral : PrefixFree fun c => (charLiteral c).toList := by
  intro c d s t h
  obtain ⟨hsingleton, hrest⟩ := prefixFree_stringLiteral h
  have hchars : [c] = [d] := by simpa using congrArg String.toList hsingleton
  exact ⟨(List.cons.inj hchars).1, hrest⟩

theorem prefixFree_boolLiteral : PrefixFree fun b => (boolLiteral b).toList := by
  intro b b' s t h
  cases b <;> cases b' <;> simp [boolLiteral] at h ⊢ <;> exact h

theorem toList_arrayLiteral (elements : List String) :
    (arrayLiteral elements).toList = '[' :: ((joinWith ", " elements).toList ++ [']']) := by
  simp [arrayLiteral]

/-- Arrays of literals that do not look like the end of an array. -/
theorem prefixFree_arrayLiteral {α : Type} {write : α → String}
    (h : PrefixFree fun a => (write a).toList)
    (hmark : NeverBegins (fun a => (write a).toList) ']') :
    PrefixFree fun as : List α => (arrayLiteral (as.map write)).toList := by
  intro as bs s t heq
  simp only [toList_arrayLiteral, List.cons_append, List.cons.injEq, true_and] at heq
  have hsep : (", " : String).toList = ',' :: [' '] := rfl
  exact h.joined hsep (by decide) hmark heq

/-! ## Class parts -/

theorem classPart_char (c : Char) : classPart (.char c) = charLiteral c := rfl

theorem classPart_range (lo hi : Char) :
    classPart (.range lo hi) = arrayLiteral ([lo, hi].map charLiteral) := rfl

theorem neverBegins_charLiteral : NeverBegins (fun c => (charLiteral c).toList) ']' :=
  fun _ => ⟨'"', _, toList_stringLiteral _, by decide⟩

theorem prefixFree_charLiterals :
    PrefixFree fun cs : List Char => (arrayLiteral (cs.map charLiteral)).toList :=
  prefixFree_arrayLiteral prefixFree_charLiteral neverBegins_charLiteral

theorem neverBegins_classPart : NeverBegins (fun part => (classPart part).toList) ']'
  | .char c => neverBegins_charLiteral c
  | .range _ _ => ⟨'[', _, toList_arrayLiteral _, by decide⟩

/-- A character begins with a quote, and a range with a bracket. -/
theorem char_ne_range (c lo hi : Char) (s t : List Char) :
    (classPart (.char c)).toList ++ s ≠ (classPart (.range lo hi)).toList ++ t := by
  rw [classPart_char, charLiteral, classPart_range, toList_stringLiteral, toList_arrayLiteral]
  intro h
  exact absurd (List.cons.inj h).1 (by decide)

/-- A part is a string or an array, and a range is an array of two characters. -/
theorem prefixFree_classPart : PrefixFree fun part => (classPart part).toList := by
  intro part part' s t h
  cases part with
  | char c =>
      cases part' with
      | char d =>
          obtain ⟨rfl, hrest⟩ := prefixFree_charLiteral h
          exact ⟨rfl, hrest⟩
      | range lo hi => exact absurd h (char_ne_range c lo hi s t)
  | range lo hi =>
      cases part' with
      | char c => exact absurd h.symm (char_ne_range c lo hi t s)
      | range lo' hi' =>
          simp only [classPart_range] at h
          obtain ⟨hends, hrest⟩ := prefixFree_charLiterals h
          cases hends
          exact ⟨rfl, hrest⟩

/-- The parts of a class are separated, and the array ends where no part begins. -/
theorem prefixFree_classParts :
    PrefixFree fun parts : List ClassPart => (arrayLiteral (parts.map classPart)).toList :=
  prefixFree_arrayLiteral prefixFree_classPart neverBegins_classPart

/-! ## Declarations -/

/-- The constructor for a shape, up to its arguments. -/
def callHead (kind : Expectation.Kind) : List Char :=
  (expectationConstructor kind.tag ++ "(").toList

/-- The arguments of a declaration, with all that follows. -/
theorem toList_expectationDeclaration (e : Expectation) :
    (expectationDeclaration e).toList =
      callHead e.kind ++ ((joinWith ", " (expectationArguments e)).toList ++ [')']) := by
  simp [expectationDeclaration, callHead, Expectation.tag]

/-- The tags begin with different letters. -/
theorem prefixFree_callHead : PrefixFree callHead := by
  have hfifth : ∀ kind, 4 < (callHead kind).length ∧
      (callHead kind)[4]? = kind.tag.toList.head? := by
    intro kind
    cases kind <;> decide
  have htag : ∀ kind kind' : Expectation.Kind,
      kind.tag.toList.head? = kind'.tag.toList.head? → kind = kind' := by
    intro kind kind'
    cases kind <;> cases kind' <;> decide
  intro kind kind' s t h
  have hletters := congrArg (·[4]?) h
  simp only [List.getElem?_append_left (hfifth _).1, (hfifth _).2] at hletters
  obtain rfl := htag kind kind' hletters
  exact ⟨rfl, List.append_cancel_left h⟩

/-- The constructor is told by its name, and its arguments one after the other. -/
theorem expectationDeclaration_injective : Function.Injective expectationDeclaration := by
  intro e e' h
  have htext := congrArg String.toList h
  rw [toList_expectationDeclaration, toList_expectationDeclaration] at htext
  obtain ⟨hkind, harguments⟩ := prefixFree_callHead htext
  cases e <;> cases e' <;> try cases hkind
  case literal.literal text ignoreCase text' ignoreCase' =>
    simp only [expectationArguments, joinWith_cons_cons, joinWith_singleton, String.toList_append,
      List.append_assoc] at harguments
    obtain ⟨rfl, hrest⟩ := prefixFree_stringLiteral harguments
    obtain ⟨rfl, -⟩ := prefixFree_boolLiteral (List.append_cancel_left hrest)
    rfl
  case charClass.charClass k k' =>
    simp only [expectationArguments, joinWith_cons_cons, joinWith_singleton, String.toList_append,
      List.append_assoc] at harguments
    obtain ⟨hparts, hrest⟩ := prefixFree_classParts harguments
    obtain ⟨hinverted, hrest⟩ := prefixFree_boolLiteral (List.append_cancel_left hrest)
    obtain ⟨hignoreCase, -⟩ := prefixFree_boolLiteral (List.append_cancel_left hrest)
    cases k
    cases k'
    cases hparts
    cases hinverted
    cases hignoreCase
    rfl
  case any.any => rfl
  case endOfInput.endOfInput => rfl
  case other.other description description' =>
    simp only [expectationArguments, joinWith_singleton] at harguments
    obtain ⟨rfl, -⟩ := prefixFree_stringLiteral harguments
    rfl

/-! ## Printable declarations -/

theorem isPrintable_unitEscape (n : Nat) : IsPrintable (unitEscape n) :=
  (isPrintable_append (s := ['\\', 'u'])).2 ⟨by decide, isPrintable_hex 4 n⟩

/-- A character stands for itself only if it is printable.  There are nine escapes by a letter, and
those by a code. -/
theorem isPrintable_escapeChar (c : Char) : IsPrintable (escapeChar c) := by
  rw [escapeChar]
  iterate 9 refine iteInduction (motive := IsPrintable) (fun _ => by decide) fun _ => ?_
  refine iteInduction (motive := IsPrintable) (fun hself => ?_) fun _ => ?_
  · simp only [Bool.and_eq_true, decide_eq_true_eq] at hself
    exact isPrintable_cons.2 ⟨hself, isPrintable_nil⟩
  refine iteInduction (motive := IsPrintable) (fun _ => ?_) fun _ => ?_
  · exact (isPrintable_append (s := ['\\', 'x'])).2 ⟨by decide, isPrintable_hex 2 c.toNat⟩
  · exact isPrintable_flatMap fun n _ => isPrintable_unitEscape n

/-- A string literal is printable whatever it denotes. -/
theorem isPrintable_stringLiteral (text : String) : IsPrintable (stringLiteral text).toList := by
  rw [toList_stringLiteral, literalRest]
  refine isPrintable_cons.2 ⟨by decide, isPrintable_append.2 ⟨?_, by decide⟩⟩
  exact isPrintable_flatMap fun c _ => isPrintable_escapeChar c

theorem isPrintable_boolLiteral (b : Bool) : IsPrintable (boolLiteral b).toList := by
  cases b <;> decide

theorem isPrintable_arrayLiteral {elements : List String}
    (h : ∀ s ∈ elements, IsPrintable s.toList) : IsPrintable (arrayLiteral elements).toList := by
  rw [toList_arrayLiteral]
  refine isPrintable_cons.2 ⟨by decide, isPrintable_append.2 ⟨?_, by decide⟩⟩
  exact isPrintable_joinWith (by decide) h

theorem isPrintable_classPart (part : ClassPart) : IsPrintable (classPart part).toList := by
  cases part with
  | char c => exact isPrintable_stringLiteral _
  | range lo hi =>
      rw [classPart_range]
      refine isPrintable_arrayLiteral fun s hs => ?_
      obtain ⟨c, -, rfl⟩ := List.mem_map.1 hs
      exact isPrintable_stringLiteral _

/-- All arguments of a constructor are literals and arrays of literals. -/
theorem isPrintable_expectationArguments (e : Expectation) :
    ∀ s ∈ expectationArguments e, IsPrintable s.toList := by
  cases e with
  | literal text ignoreCase =>
      simp [expectationArguments, isPrintable_stringLiteral, isPrintable_boolLiteral]
  | charClass k =>
      have hparts : IsPrintable (arrayLiteral (k.parts.map classPart)).toList := by
        refine isPrintable_arrayLiteral fun s hs => ?_
        obtain ⟨part, -, rfl⟩ := List.mem_map.1 hs
        exact isPrintable_classPart part
      simp [expectationArguments, hparts, isPrintable_boolLiteral]
  | any => simp [expectationArguments]
  | endOfInput => simp [expectationArguments]
  | other description => simp [expectationArguments, isPrintable_stringLiteral]

/-- The declaration of an expectation is printable whatever is expected. -/
theorem isPrintable_expectationDeclaration (e : Expectation) :
    IsPrintable (expectationDeclaration e).toList := by
  have hhead : ∀ kind, IsPrintable (callHead kind) := by
    intro kind
    cases kind <;> decide
  rw [toList_expectationDeclaration]
  refine isPrintable_append.2 ⟨hhead e.kind, isPrintable_append.2 ⟨?_, by decide⟩⟩
  exact isPrintable_joinWith (by decide) (isPrintable_expectationArguments e)

/-- Expectations can be told apart by their declarations, and every declaration is one line of
printable characters. -/
theorem expectationDeclaration_faithful (e e' : Expectation) :
    (expectationDeclaration e = expectationDeclaration e' ↔ e = e') ∧
      IsPrintable (expectationDeclaration e).toList ∧
      splitLines (expectationDeclaration e).toList = [(expectationDeclaration e).toList] := by
  have hprintable := isPrintable_expectationDeclaration e
  exact ⟨expectationDeclaration_injective.eq_iff, hprintable,
    splitLines_of_isPrintable hprintable⟩

example : expectationDeclaration (.charClass ⟨[.char '\x00', .char '1'], false, false⟩) ≠
    expectationDeclaration (.charClass ⟨[.range '\x00' '1'], false, false⟩) := by decide

end PegGen.Js
