import PegGen.Proofs.Js.Tokens

/-!
# Reading expressions

The expressions of JavaScript that fragments are made of: names, decimal integers, string literals,
members, elements, calls, updates and strict comparisons, without parentheses around them.

A term is an expression as a tree, and `Term.tokens` writes it down.  Not every tree can be written
this way.  In a `Term.Valid` one every operation is applied to what binds at least as tightly:

* members, elements and calls are taken of anything but an update or a comparison;
* an update is made to a name, a member or an element;
* comparisons group to the left, so the right side of one is no comparison.

A valid term is all that its tokens can be read as.  `Reader` reads tokens from left to right, with
a stack of what has been opened, and finds the valid term that was written (`parse?_tokens`).  So
a text `Reads` as one term at most (`Reads.unique`).
-/

namespace PegGen.Js

/-- The words that are no names. -/
def reservedWords : List String :=
  ["await", "break", "case", "catch", "class", "const", "continue", "debugger", "default", "delete",
    "do", "else", "enum", "export", "extends", "false", "finally", "for", "function", "if",
    "implements", "import", "in", "instanceof", "interface", "let", "new", "null", "package",
    "private", "protected", "public", "return", "static", "super", "switch", "this", "throw",
    "true", "try", "typeof", "var", "void", "while", "with", "yield"]

/-- An expression. -/
inductive Term where
  /-- A name. -/
  | name (name : String)
  /-- A decimal integer. -/
  | number (digits : String)
  /-- A string literal. -/
  | quoted (source : String)
  /-- A member: `base.name`. -/
  | member (base : Term) (name : String)
  /-- An element: `base[key]`. -/
  | index (base key : Term)
  /-- A call: `base(a, b)`. -/
  | call (base : Term) (arguments : List Term)
  /-- A change by one: `base++`. -/
  | update (u : Update) (base : Term)
  /-- A comparison: `left === right`. -/
  | compare (c : Comparison) (left right : Term)

namespace Term

mutual

/-- The tokens of a term. -/
def tokens : Term → List Token
  | name n => [.word n]
  | number digits => [.number digits]
  | quoted source => [.quoted source]
  | member base n => base.tokens ++ [.dot, .word n]
  | index base key => base.tokens ++ .openBracket :: (key.tokens ++ [.closeBracket])
  | call base [] => base.tokens ++ [.openParen, .closeParen]
  | call base (a :: as) =>
      base.tokens ++ .openParen :: (a.tokens ++ (laterTokens as ++ [.closeParen]))
  | update u base => base.tokens ++ [.update u]
  | compare c left right => left.tokens ++ .compare c :: right.tokens

/-- The tokens of the arguments after the first. -/
def laterTokens : List Term → List Token
  | [] => []
  | a :: as => .comma :: (a.tokens ++ laterTokens as)

end

/-- The term may have members and elements and may be called. -/
def isTight : Term → Bool
  | update .. | compare .. => false
  | _ => true

/-- The term may be updated. -/
def isAssignable : Term → Bool
  | name _ | member .. | index .. => true
  | _ => false

/-- The term is a comparison. -/
def isComparison : Term → Bool
  | compare .. => true
  | _ => false

/-- Every operation is applied to what binds tightly enough. -/
inductive Valid : Term → Prop where
  | name {n : String} (h : n ∉ reservedWords) : Valid (name n)
  | number {digits : String} : Valid (number digits)
  | quoted {source : String} : Valid (quoted source)
  | member {base : Term} {n : String} (hbase : Valid base) (htight : base.isTight) :
      Valid (member base n)
  | index {base key : Term} (hbase : Valid base) (htight : base.isTight) (hkey : Valid key) :
      Valid (index base key)
  | call {base : Term} {as : List Term} (hbase : Valid base) (htight : base.isTight)
      (has : ∀ a ∈ as, Valid a) : Valid (call base as)
  | update {u : Update} {base : Term} (hbase : Valid base) (h : base.isAssignable) :
      Valid (update u base)
  | compare {c : Comparison} {left right : Term} (hleft : Valid left) (hright : Valid right)
      (h : right.isComparison = false) : Valid (compare c left right)

theorem valid_member_iff {base : Term} {n : String} :
    (member base n).Valid ↔ base.Valid ∧ base.isTight :=
  ⟨fun | .member h htight => ⟨h, htight⟩, fun ⟨h, htight⟩ => .member h htight⟩

theorem valid_index_iff {base key : Term} :
    (index base key).Valid ↔ base.Valid ∧ base.isTight ∧ key.Valid :=
  ⟨fun | .index h htight hkey => ⟨h, htight, hkey⟩, fun ⟨h, htight, hkey⟩ => .index h htight hkey⟩

theorem valid_call_iff {base : Term} {as : List Term} :
    (call base as).Valid ↔ base.Valid ∧ base.isTight ∧ ∀ a ∈ as, a.Valid :=
  ⟨fun | .call h htight has => ⟨h, htight, has⟩, fun ⟨h, htight, has⟩ => .call h htight has⟩

theorem valid_update_iff {u : Update} {base : Term} :
    (update u base).Valid ↔ base.Valid ∧ base.isAssignable :=
  ⟨fun | .update hbase h => ⟨hbase, h⟩, fun ⟨hbase, h⟩ => .update hbase h⟩

theorem valid_compare_iff {c : Comparison} {left right : Term} :
    (compare c left right).Valid ↔ left.Valid ∧ right.Valid ∧ right.isComparison = false :=
  ⟨fun | .compare hleft hright h => ⟨hleft, hright, h⟩,
    fun ⟨hleft, hright, h⟩ => .compare hleft hright h⟩

end Term

open Term

/-! ## The reader -/

/-- What is open to the left of an operand. -/
inductive Opened where
  /-- The bracket of an element. -/
  | index (base : Term)
  /-- The parenthesis of a call, with the arguments that are complete. -/
  | call (base : Term) (done : List Term)
  /-- A comparison. -/
  | compare (c : Comparison) (left : Term)

/-- Where a reader stands. -/
inductive Reader where
  /-- Before an operand. -/
  | before (stack : List Opened)
  /-- After a dot. -/
  | dotted (base : Term) (stack : List Opened)
  /-- After an operand. -/
  | after (operand : Term) (stack : List Opened)

namespace Reader

/-- Complete the comparison of which an operand is the right side. -/
def settle : Term → List Opened → Term × List Opened
  | right, .compare c left :: stack => (.compare c left right, stack)
  | operand, stack => (operand, stack)

/-- Complete the innermost bracket. -/
def closeBracket : Term × List Opened → Option Reader
  | (key, .index base :: stack) => some (after (.index base key) stack)
  | _ => none

/-- Complete an argument of the innermost call, and go on. -/
def closeArgument : Term × List Opened → Option Reader
  | (a, .call base done :: stack) => some (before (.call base (done ++ [a]) :: stack))
  | _ => none

/-- Complete the last argument of the innermost call. -/
def closeCall : Term × List Opened → Option Reader
  | (a, .call base done :: stack) => some (after (.call base (done ++ [a])) stack)
  | _ => none

/-- Go on after an operand. -/
def onward (operand : Term) (stack : List Opened) : Token → Option Reader
  | .dot => if operand.isTight then some (dotted operand stack) else none
  | .openBracket => if operand.isTight then some (before (.index operand :: stack)) else none
  | .openParen => if operand.isTight then some (before (.call operand [] :: stack)) else none
  | .update u => if operand.isAssignable then some (after (.update u operand) stack) else none
  | .compare c =>
      let (left, stack) := settle operand stack
      some (before (.compare c left :: stack))
  | .closeBracket => closeBracket (settle operand stack)
  | .comma => closeArgument (settle operand stack)
  | .closeParen => closeCall (settle operand stack)
  | _ => none

/-- Where the reader stands after one more token. -/
def next : Reader → Token → Option Reader
  | before stack, .word n => if n ∈ reservedWords then none else some (after (.name n) stack)
  | before stack, .number digits => some (after (.number digits) stack)
  | before stack, .quoted source => some (after (.quoted source) stack)
  | before (.call base [] :: stack), .closeParen => some (after (.call base []) stack)
  | dotted base stack, .word n => some (after (.member base n) stack)
  | after operand stack, t => onward operand stack t
  | _, _ => none

/-- Where the reader stands after some tokens. -/
def run : Reader → List Token → Option Reader
  | r, [] => some r
  | r, t :: ts => (r.next t).bind fun r => r.run ts

/-- The term that has been read if there is no more token. -/
def result? : Reader → Option Term
  | after operand stack =>
      match settle operand stack with
      | (e, []) => some e
      | _ => none
  | _ => none

/-- Where the reader stands after a term. -/
def behind : Term → List Opened → Reader
  | .compare c left right, stack => after right (.compare c left :: stack)
  | e, stack => after e stack

/-- No comparison waits for its right side. -/
def Settled : List Opened → Prop
  | .compare .. :: _ => False
  | _ => True

end Reader

/-- The term that some tokens are read as. -/
def parse? (ts : List Token) : Option Term :=
  ((Reader.before []).run ts).bind Reader.result?

/-! ## Valid terms are read back -/

namespace Reader

/-- A reader that takes a token goes on with the others. -/
theorem run_cons {r r' : Reader} {t : Token} (h : r.next t = some r') (ts : List Token) :
    r.run (t :: ts) = r'.run ts := by
  rw [run, h]
  rfl

/-- Only a comparison ends in another way than at its operand. -/
theorem behind_of_isComparison {e : Term} (h : e.isComparison = false) (stack : List Opened) :
    behind e stack = after e stack := by
  cases e with
  | compare => cases h
  | _ => rfl

theorem isComparison_of_isTight {e : Term} (h : e.isTight) : e.isComparison = false := by
  cases e with
  | compare => cases h
  | _ => rfl

theorem isComparison_of_isAssignable {e : Term} (h : e.isAssignable) : e.isComparison = false := by
  cases e with
  | compare => cases h
  | _ => rfl

/-- After a term with nothing waiting before it, the term is complete. -/
theorem exists_behind (e : Term) (stack : List Opened) (h : Settled stack) :
    ∃ operand stack', behind e stack = after operand stack' ∧
      settle operand stack' = (e, stack) := by
  have hsettle : ∀ operand, settle operand stack = (operand, stack) := by
    intro operand
    cases stack with
    | nil => rfl
    | cons opened stack =>
        cases opened with
        | compare => exact h.elim
        | index => rfl
        | call => rfl
  cases hcomparison : e.isComparison with
  | false => exact ⟨e, stack, behind_of_isComparison hcomparison stack, hsettle e⟩
  | true =>
      cases e with
      | compare c left right => exact ⟨right, .compare c left :: stack, rfl, rfl⟩
      | _ => cases hcomparison

/-- A term becomes the left side of a comparison. -/
theorem next_behind_compare (e : Term) {stack : List Opened} (h : Settled stack) (c : Comparison) :
    (behind e stack).next (.compare c) = some (before (.compare c e :: stack)) := by
  obtain ⟨operand, stack', hbehind, hsettle⟩ := exists_behind e stack h
  rw [hbehind, next, onward, hsettle]

/-- A bracket closes the index that is open. -/
theorem next_behind_closeBracket (base key : Term) (stack : List Opened) :
    (behind key (.index base :: stack)).next .closeBracket =
      some (after (.index base key) stack) := by
  obtain ⟨operand, stack', hbehind, hsettle⟩ :=
    exists_behind key (.index base :: stack) trivial
  rw [hbehind, next, onward, hsettle, closeBracket]

/-- A comma ends an argument of the call that is open. -/
theorem next_behind_comma (base a : Term) (done : List Term) (stack : List Opened) :
    (behind a (.call base done :: stack)).next .comma =
      some (before (.call base (done ++ [a]) :: stack)) := by
  obtain ⟨operand, stack', hbehind, hsettle⟩ :=
    exists_behind a (.call base done :: stack) trivial
  rw [hbehind, next, onward, hsettle, closeArgument]

/-- A parenthesis closes the call with its last argument. -/
theorem next_behind_closeParen (base a : Term) (done : List Term) (stack : List Opened) :
    (behind a (.call base done :: stack)).next .closeParen =
      some (after (.call base (done ++ [a])) stack) := by
  obtain ⟨operand, stack', hbehind, hsettle⟩ :=
    exists_behind a (.call base done :: stack) trivial
  rw [hbehind, next, onward, hsettle, closeCall]

/-- The reader passes over a term, unless it would take a comparison for the right side of one. -/
def Passes (e : Term) : Prop :=
  ∀ stack ts, e.isComparison = false ∨ Settled stack →
    (before stack).run (e.tokens ++ ts) = (behind e stack).run ts

theorem Passes.operand {e : Term} (h : Passes e) (hlevel : e.isComparison = false)
    (stack : List Opened) (ts : List Token) :
    (before stack).run (e.tokens ++ ts) = (after e stack).run ts := by
  rw [h stack ts (.inl hlevel), behind_of_isComparison hlevel]

/-- The arguments after the first are read up to the end of the call. -/
theorem run_laterTokens {base a : Term} {done as : List Term} (has : ∀ a ∈ as, Passes a)
    (stack : List Opened) (ts : List Token) :
    (behind a (.call base done :: stack)).run (laterTokens as ++ .closeParen :: ts) =
      (after (.call base (done ++ a :: as)) stack).run ts := by
  induction as generalizing a done with
  | nil => exact run_cons (next_behind_closeParen base a done stack) ts
  | cons b as ih =>
      have hb := has b (.head _) (.call base (done ++ [a]) :: stack)
        (laterTokens as ++ .closeParen :: ts) (.inr trivial)
      rw [laterTokens, List.cons_append, run_cons (next_behind_comma base a done stack),
        List.append_assoc, hb, ih fun a' ha' => has a' (.tail _ ha'), List.append_assoc]
      rfl

/-- A valid term is read from its tokens, whatever is open around it. -/
theorem passes_of_valid {e : Term} (h : e.Valid) : Passes e := by
  induction h with
  | @name n h =>
      intro stack ts _
      have hname : (before stack).next (.word n) = some (after (.name n) stack) := if_neg h
      exact run_cons hname ts
  | number => exact fun stack ts _ => rfl
  | quoted => exact fun stack ts _ => rfl
  | @member base n _ htight ih =>
      intro stack ts _
      have hdot : (after base stack).next .dot = some (dotted base stack) := if_pos htight
      rw [tokens, List.append_assoc, ih.operand (isComparison_of_isTight htight)]
      exact run_cons hdot _
  | @index base key _ htight _ ih ihkey =>
      intro stack ts _
      have hopen : (after base stack).next .openBracket = some (before (.index base :: stack)) :=
        if_pos htight
      rw [tokens, List.append_assoc, ih.operand (isComparison_of_isTight htight), List.cons_append,
        run_cons hopen, List.append_assoc, ihkey (.index base :: stack) _ (.inr trivial)]
      exact run_cons (next_behind_closeBracket base key stack) ts
  | @call base as _ htight _ ih iha =>
      intro stack ts _
      have hopen : (after base stack).next .openParen = some (before (.call base [] :: stack)) :=
        if_pos htight
      cases as with
      | nil =>
          rw [tokens, List.append_assoc, ih.operand (isComparison_of_isTight htight)]
          exact run_cons hopen _
      | cons a as =>
          have ha := iha a (.head _) (.call base [] :: stack)
            (laterTokens as ++ .closeParen :: ts) (.inr trivial)
          rw [tokens, List.append_assoc, ih.operand (isComparison_of_isTight htight),
            List.cons_append, run_cons hopen, List.append_assoc, List.append_assoc]
          exact ha.trans (run_laterTokens (fun a' ha' => iha a' (.tail _ ha')) stack ts)
  | @update u base _ h ih =>
      intro stack ts _
      have hupdate : (after base stack).next (.update u) = some (after (.update u base) stack) :=
        if_pos h
      rw [tokens, List.append_assoc, ih.operand (isComparison_of_isAssignable h)]
      exact run_cons hupdate ts
  | @compare c left right _ _ h ih ihright =>
      intro stack ts hstack
      have hsettled : Settled stack := hstack.resolve_left nofun
      rw [tokens, List.append_assoc, ih stack _ (.inr hsettled), List.cons_append,
        run_cons (next_behind_compare left hsettled c), ihright.operand h]
      rfl

end Reader

/-- The tokens of a valid term are read as this term. -/
theorem parse?_tokens {e : Term} (h : e.Valid) : parse? e.tokens = some e := by
  have hrun := Reader.passes_of_valid h [] [] (.inr trivial)
  obtain ⟨operand, stack, hbehind, hsettle⟩ := Reader.exists_behind e [] trivial
  rw [List.append_nil, hbehind] at hrun
  rw [parse?, hrun]
  show Reader.result? (.after operand stack) = some e
  rw [Reader.result?, hsettle]

/-! ## Texts -/

/-- A text is an expression, with this term. -/
structure Reads (A : Alphabet) (text : String) (e : Term) : Prop where
  /-- The text has the tokens of the term. -/
  tokens : tokens? A text.toList = some e.tokens
  /-- The term is what its tokens are read as. -/
  valid : e.Valid

/-- A text is at most one expression. -/
theorem Reads.unique {A : Alphabet} {text : String} {e e' : Term} (h : Reads A text e)
    (h' : Reads A text e') : e = e' := by
  have htokens : e.tokens = e'.tokens := Option.some.inj (h.tokens.symm.trans h'.tokens)
  have hread := parse?_tokens h.valid
  rw [htokens, parse?_tokens h'.valid] at hread
  exact (Option.some.inj hread).symm

/-- A text whose tokens are not read as a term is no expression. -/
theorem not_reads {A : Alphabet} {text : String} {ts : List Token}
    (htokens : tokens? A text.toList = some ts) (hparse : parse? ts = none) (e : Term) :
    ¬ Reads A text e := by
  intro h
  have heq : ts = e.tokens := Option.some.inj (htokens.symm.trans h.tokens)
  rw [heq, parse?_tokens h.valid] at hparse
  cases hparse

end PegGen.Js
