import Mathlib.Data.List.Forall2
import PegGen.Js.Fragment
import PegGen.Proofs.Js.Reading

/-!
# Fragments put together

The operations on fragments put texts next to each other and never add parentheses.  So the text of
an operation may group differently from how it was made: `a === b` with an element `c` is
`a === b[c]`, and `x++` with an element `0` is `x++[0]`, which is no expression at all
(`not_reads_element_of_update`).

`operations_read` says for each operation when the outcome is the expression that was meant, with
the fragment and the arguments as its parts.  If all of them are expressions, this depends on two
things.

* The fragment has to bind tightly enough for what is put behind it, and the right side of
  a comparison must not be a comparison itself.
* What is put behind must not run into the end of the text: a dot into a number, or an update into
  a line end.
-/

namespace PegGen.Js

open Term TokenMode

variable {A : Alphabet}

theorem valid_of_reads {texts : List String} {es : List Term}
    (h : List.Forall₂ (Reads A) texts es) : ∀ e ∈ es, e.Valid := by
  induction h with
  | nil => exact nofun
  | cons hread _ ih =>
      intro e he
      rcases List.mem_cons.1 he with rfl | he
      · exact hread.valid
      · exact ih e he

/-! ## Tokens of the operations -/

/-- An update as it is written. -/
def Update.text : Update → String
  | .increment => "++"
  | .decrement => "--"

/-- What an operation writes between texts. -/
inductive Mark where
  | openParen | closeParen | openBracket | closeBracket | comma
  | compare (c : Comparison)

namespace Mark

/-- A mark as it is written. -/
def text : Mark → String
  | openParen => "("
  | closeParen => ")"
  | openBracket => "["
  | closeBracket => "]"
  | comma => ", "
  | compare .equal => " === "
  | compare .notEqual => " !== "

/-- The token of a mark. -/
def token : Mark → Token
  | openParen => .openParen
  | closeParen => .closeParen
  | openBracket => .openBracket
  | closeBracket => .closeBracket
  | comma => .comma
  | compare c => .compare c

end Mark

section Marks

variable {s : List Char} {ts : List Token}

/-- No mark runs into the text before it, and none can go on. -/
theorem closes_mark (h : tokens? A s = some ts) (mark : Mark) :
    Closes A (s ++ mark.text.toList) (ts ++ [mark.token]) := by
  cases mark with
  | compare c => cases c <;> exact closes_of_tokens? h ⟨rfl, rfl⟩ (by decide) fun _ => rfl
  | _ => exact closes_of_tokens? h ⟨rfl, rfl⟩ (by decide) fun _ => rfl

/-- Arguments after the first, up to the parenthesis. -/
theorem closes_arguments (h : tokens? A s = some ts) {texts : List String} {es : List Term}
    (hread : List.Forall₂ (Reads A) texts es) :
    Closes A (s ++ ((texts.flatMap fun t => ", ".toList ++ t.toList) ++ ")".toList))
      (ts ++ (laterTokens es ++ [.closeParen])) := by
  induction hread generalizing s ts with
  | nil => exact closes_mark h .closeParen
  | @cons text e texts es hread _ ih =>
      have hnext := ih ((closes_mark h .comma).append_complete hread.tokens)
      simpa [laterTokens, Mark.text, Mark.token] using hnext

end Marks

section Operations

variable {f : Fragment} {e : Term} (hf : Reads A f.text e)
include hf

/-- The tokens of a call are those of what is called and of its arguments. -/
theorem tokens?_call {texts : List String} {es : List Term}
    (hread : List.Forall₂ (Reads A) texts es) :
    tokens? A (f.call texts).text.toList = some (Term.call e es).tokens := by
  have hopen := closes_mark hf.tokens .openParen
  cases hread with
  | nil =>
      have hclosed : Closes A [')'] [.closeParen] := rfl
      simpa [Fragment.call, Term.tokens, Mark.text, Mark.token] using
        (hopen.append hclosed).complete
  | @cons text e' texts es hfirst hlater =>
      have harguments := closes_arguments hfirst.tokens hlater
      simpa [Fragment.call, Term.tokens, Mark.text, Mark.token, Text.toList_joinWith_cons] using
        (hopen.append harguments).complete

/-- The tokens of an index are those of what is indexed and of the key. -/
theorem tokens?_get {text : String} {key : Term} (hkey : Reads A text key) :
    tokens? A (f.get text).text.toList = some (index e key).tokens := by
  have hclosed :=
    (closes_mark hf.tokens .openBracket).append (closes_mark hkey.tokens .closeBracket)
  simpa [Fragment.get, Term.tokens, Mark.text, Mark.token] using hclosed.complete

/-! ## What the operations read as -/

/-- A call is read as one exactly if what is called is tight. -/
theorem reads_call_iff {texts : List String} {es : List Term}
    (hread : List.Forall₂ (Reads A) texts es) :
    Reads A (f.call texts).text (call e es) ↔ e.isTight := by
  constructor
  · intro h
    exact (valid_call_iff.1 h.valid).2.1
  · intro htight
    exact ⟨tokens?_call hf hread, .call hf.valid htight (valid_of_reads hread)⟩

/-- So is an index. -/
theorem reads_get_iff {text : String} {key : Term} (hkey : Reads A text key) :
    Reads A (f.get text).text (index e key) ↔ e.isTight := by
  constructor
  · intro h
    exact (valid_index_iff.1 h.valid).2.1
  · intro htight
    exact ⟨tokens?_get hf hkey, .index hf.valid htight hkey.valid⟩

/-- A member may not be asked of a number, which would take the dot. -/
theorem reads_member_iff {name : String} (hname : tokens? A name.toList = some [.word name]) :
    Reads A (f.text ++ "." ++ name) (member e name) ↔
      e.isTight ∧ endsInNumber A f.text.toList = false := by
  constructor
  · intro h
    exact ⟨(valid_member_iff.1 h.valid).2, endsInNumber_of_dot (by simpa using h.tokens)⟩
  · rintro ⟨htight, hnumber⟩
    refine ⟨?_, .member hf.valid htight⟩
    simpa [Term.tokens] using tokens?_dot hf.tokens hnumber hname

/-- A method, with its arguments. -/
theorem reads_method_iff {name : String} (hname : tokens? A name.toList = some [.word name])
    {texts : List String} {es : List Term} (hread : List.Forall₂ (Reads A) texts es) :
    Reads A ((Fragment.mk (f.text ++ "." ++ name)).call texts).text (call (member e name) es) ↔
      e.isTight ∧ endsInNumber A f.text.toList = false := by
  constructor
  · intro h
    obtain ⟨hmember, -, -⟩ := valid_call_iff.1 h.valid
    exact ⟨(valid_member_iff.1 hmember).2,
      endsInNumber_of_dot (by simpa [Fragment.call] using h.tokens)⟩
  · intro h
    have hmember : Reads A (Fragment.mk (f.text ++ "." ++ name)).text (member e name) :=
      (reads_member_iff hf hname).2 h
    exact (reads_call_iff hmember hread).2 rfl

/-- An update applies to what can be assigned and stands on the same line. -/
theorem reads_update_iff (u : Update) :
    Reads A (f.text ++ u.text) (update u e) ↔
      e.isAssignable ∧ endsLine A f.text.toList = false := by
  have htokens : tokens? A (f.text ++ u.text).toList = some (update u e).tokens ↔
      endsLine A f.text.toList = false := by
    cases u with
    | increment =>
        simpa [Update.text, Term.tokens] using
          tokens?_update (c := '+') hf.tokens ⟨rfl, rfl⟩ (by decide) rfl rfl
    | decrement =>
        simpa [Update.text, Term.tokens] using
          tokens?_update (c := '-') hf.tokens ⟨rfl, rfl⟩ (by decide) rfl rfl
  constructor
  · intro h
    exact ⟨(valid_update_iff.1 h.valid).2, htokens.1 h.tokens⟩
  · rintro ⟨hassignable, hline⟩
    exact ⟨htokens.2 hline, .update hf.valid hassignable⟩

end Operations

/-- A comparison may have another one on its left, but not on its right. -/
theorem reads_compare_iff {left right : String} {l r : Term} (hleft : Reads A left l)
    (hright : Reads A right r) (c : Comparison) :
    Reads A (left ++ (Mark.compare c).text ++ right) (compare c l r) ↔ r.isComparison = false := by
  constructor
  · intro h
    exact (valid_compare_iff.1 h.valid).2.2
  · intro hsingle
    refine ⟨?_, .compare hleft.valid hright.valid hsingle⟩
    simpa [Term.tokens, Mark.token] using
      (closes_mark hleft.tokens (.compare c)).append_complete hright.tokens

theorem substr_eq_call (f : Fragment) (start length : String) :
    f.substr start length = (Fragment.mk (f.text ++ "." ++ "substr")).call [start, length] := by
  simp [Fragment.substr, Fragment.call, ← String.toList_inj]

theorem toLowerCase_eq_call (f : Fragment) :
    f.toLowerCase = (Fragment.mk (f.text ++ "." ++ "toLowerCase")).call [] := by
  simp [Fragment.toLowerCase, Fragment.call, ← String.toList_inj]

theorem text_length (f : Fragment) : f.length.text = f.text ++ "." ++ "length" := by
  simp [Fragment.length, ← String.toList_inj]

/-- If a fragment and the arguments are expressions, every operation gives the expression with these
as its parts, exactly as far as they bind tightly enough and nothing runs into their ends. -/
theorem operations_read {f : Fragment} {e : Term} (hf : Reads A f.text e) :
    (∀ texts es, List.Forall₂ (Reads A) texts es →
      (Reads A (f.call texts).text (call e es) ↔ e.isTight)) ∧
    (∀ text key, Reads A text key → (Reads A (f.get text).text (index e key) ↔ e.isTight)) ∧
    (∀ text right, Reads A text right →
      (Reads A (f.equal text).text (compare .equal e right) ↔ right.isComparison = false)) ∧
    (∀ text left, Reads A text left →
      (Reads A (f.notEqual text).text (compare .notEqual left e) ↔ e.isComparison = false)) ∧
    (∀ start first length second, Reads A start first → Reads A length second →
      (Reads A (f.substr start length).text (call (member e "substr") [first, second]) ↔
        e.isTight ∧ endsInNumber A f.text.toList = false)) ∧
    (Reads A f.toLowerCase.text (call (member e "toLowerCase") []) ↔
      e.isTight ∧ endsInNumber A f.text.toList = false) ∧
    (Reads A f.length.text (member e "length") ↔
      e.isTight ∧ endsInNumber A f.text.toList = false) ∧
    (Reads A f.inc.text (update .increment e) ↔
      e.isAssignable ∧ endsLine A f.text.toList = false) ∧
    (Reads A f.dec.text (update .decrement e) ↔
      e.isAssignable ∧ endsLine A f.text.toList = false) := by
  refine ⟨fun _ _ => reads_call_iff hf, fun _ _ => reads_get_iff hf,
    fun _ _ hright => reads_compare_iff hf hright .equal,
    fun _ _ hleft => reads_compare_iff hleft hf .notEqual, ?_, ?_, ?_,
    reads_update_iff hf .increment, reads_update_iff hf .decrement⟩
  · intro start first length second hfirst hsecond
    rw [substr_eq_call]
    exact reads_method_iff hf rfl (.cons hfirst (.cons hsecond .nil))
  · rw [toLowerCase_eq_call]
    exact reads_method_iff hf rfl .nil
  · rw [text_length]
    exact reads_member_iff hf rfl

/-- A name binds tightly enough for everything. -/
theorem operations_read_of_name :
    Reads .ascii "s0" (name "s0") ∧
      Reads .ascii "s0[0]" (index (name "s0") (number "0")) ∧
      Reads .ascii "0 !== s0" (compare .notEqual (number "0") (name "s0")) ∧
      Reads .ascii "s0.length" (member (name "s0") "length") ∧
      Reads .ascii "s0++" (update .increment (name "s0")) := by
  have hname : Reads .ascii "s0" (name "s0") := ⟨by decide, .name (by decide)⟩
  have hzero : Reads .ascii "0" (number "0") := ⟨by decide, .number⟩
  obtain ⟨-, hget, -, hnotEqual, -, -, hlength, hinc, -⟩ := operations_read (f := ⟨"s0"⟩) hname
  exact ⟨hname, (hget "0" _ hzero).2 rfl, (hnotEqual "0" _ hzero).2 rfl, hlength.2 (by decide),
    hinc.2 (by decide)⟩

/-- An update has no elements. -/
theorem not_reads_element_of_update :
    Reads .ascii (Fragment.mk "x").inc.text (update .increment (name "x")) ∧
      Reads .ascii "0" (number "0") ∧
      ∀ e, ¬ Reads .ascii ((Fragment.mk "x").inc.get "0").text e := by
  have htokens : tokens? .ascii "x++[0]".toList =
      some [.word "x", .update .increment, .openBracket, .number "0", .closeBracket] := by decide
  exact ⟨⟨by decide, .update (.name (by decide)) rfl⟩, ⟨by decide, .number⟩, not_reads htokens rfl⟩

end PegGen.Js
