import Mathlib.Data.List.Sort
import Mathlib.Data.String.Basic
import PegGen.SyntaxError

/-!
# The wording of what was expected

An error names what was expected as a phrase: the descriptions in order, each once, joined the way a
person writes a list of alternatives.  Repetitions are dropped between neighbours only.  This is
enough because equal descriptions are neighbours once the list is in order: what is left goes up
strictly, and has the same members as before (`Expectation.pairwise_descriptions`,
`Expectation.mem_descriptions`).

A list that goes up strictly is determined by its members.  So the phrase, and the message with it,
depends on nothing but the set of the descriptions (`wording_of_descriptions`).
-/

namespace PegGen

/-! ## Dropping repetitions -/

section Repetitions

variable {α : Type} [BEq α] [LawfulBEq α] {a x : α} {rest done : List α}

theorem mem_eraseReps_loop :
    x ∈ List.eraseRepsBy.loop (· == ·) a rest done ↔ x ∈ done ∨ x ∈ a :: rest := by
  induction rest generalizing a done with
  | nil => simp [List.eraseRepsBy.loop, or_comm]
  | cons b rest ih =>
      rw [List.eraseRepsBy.loop]
      split
      next h =>
        obtain rfl : a = b := by simpa using h
        simp [ih]
      next => simp [ih, or_assoc, or_left_comm]

theorem mem_eraseReps {l : List α} : x ∈ l.eraseReps ↔ x ∈ l := by
  cases l with
  | nil => rfl
  | cons a rest => exact mem_eraseReps_loop.trans (by simp)

/-- The loop has `done` and `a` behind it, strictly in order, and before it only what is not
smaller than `a`. -/
theorem pairwise_eraseReps_loop {β : Type} [LinearOrder β] [BEq β] [LawfulBEq β] {a : β}
    {rest done : List β} (hdone : (done.reverse ++ [a]).Pairwise (· < ·))
    (hrest : (a :: rest).Pairwise (· ≤ ·)) :
    (List.eraseRepsBy.loop (· == ·) a rest done).Pairwise (· < ·) := by
  induction rest generalizing a done with
  | nil => simpa [List.eraseRepsBy.loop] using hdone
  | cons b rest ih =>
      obtain ⟨hle, hrest⟩ := List.pairwise_cons.1 hrest
      rw [List.eraseRepsBy.loop]
      split
      next h =>
        obtain rfl : a = b := by simpa using h
        exact ih hdone hrest
      next h =>
        have hlt : a < b := lt_of_le_of_ne (hle b (.head _)) (by simpa using h)
        refine ih ?_ hrest
        rw [List.reverse_cons]
        refine List.pairwise_append.2 ⟨hdone, List.pairwise_singleton _ _, ?_⟩
        intro x hx y hy
        obtain rfl := List.mem_singleton.1 hy
        rcases List.mem_append.1 hx with hx | hx
        · exact lt_trans ((List.pairwise_append.1 hdone).2.2 x hx a (.head _)) hlt
        · exact List.mem_singleton.1 hx ▸ hlt

theorem pairwise_eraseReps {β : Type} [LinearOrder β] [BEq β] [LawfulBEq β] {l : List β}
    (h : l.Pairwise (· ≤ ·)) : l.eraseReps.Pairwise (· < ·) := by
  cases l with
  | nil => exact .nil
  | cons a rest => exact pairwise_eraseReps_loop (List.pairwise_singleton _ _) h

end Repetitions

namespace Expectation

/-! ## Descriptions in order -/

theorem mem_descriptions {es : List Expectation} {s : String} :
    s ∈ descriptions es ↔ s ∈ es.map describe := by
  rw [descriptions, mem_eraseReps, List.mem_mergeSort]

theorem pairwise_descriptions (es : List Expectation) : (descriptions es).Pairwise (· < ·) := by
  have htrans : ∀ a b c : String, decide (a ≤ b) → decide (b ≤ c) → decide (a ≤ c) := by
    simpa using fun a b c => le_trans
  have htotal : ∀ a b : String, decide (a ≤ b) || decide (b ≤ a) := by
    simpa using le_total
  have hsorted := List.pairwise_mergeSort htrans htotal (es.map describe)
  exact pairwise_eraseReps (hsorted.imp of_decide_eq_true)

/-- The set of the descriptions determines their list. -/
theorem descriptions_congr {es es' : List Expectation}
    (h : ∀ s, s ∈ es.map describe ↔ s ∈ es'.map describe) : descriptions es = descriptions es' := by
  refine (pairwise_descriptions es).eq_of_mem_iff (pairwise_descriptions es') fun s => ?_
  rw [mem_descriptions, h, mem_descriptions]

/-! ## Phrases -/

/-- How a list of alternatives reads. -/
inductive Phrase : List String → String → Prop where
  /-- There is no alternative. -/
  | nothing : Phrase [] "nothing"
  /-- One alternative stands for itself. -/
  | one {a : String} : Phrase [a] a
  /-- Between two stands an `or`. -/
  | two {a b : String} : Phrase [a, b] (a ++ " or " ++ b)
  /-- Between more stand commas, and an `or` before the last. -/
  | more {front : List String} {last : String} (h : 2 ≤ front.length) :
      Phrase (front ++ [last]) (Text.joinWith ", " front ++ ", or " ++ last)

theorem phrase_alternatives (texts : List String) : Phrase texts (alternatives texts) := by
  match texts with
  | [] => exact .nothing
  | [a] => exact .one
  | [a, b] => exact .two
  | a :: b :: c :: rest =>
      have hphrase : Phrase (a :: b :: (c :: rest).dropLast ++
          [(c :: rest).getLast (List.cons_ne_nil c rest)]) (alternatives (a :: b :: c :: rest)) :=
        .more (by simp)
      rwa [List.cons_append, List.cons_append, List.dropLast_append_getLast] at hphrase

end Expectation

namespace Text

/-- The numbers of the characters of a text. -/
def scalars (s : String) : List Nat :=
  s.toList.map Char.toNat

theorem scalars_lt {s t : String} (h : s < t) : scalars s < scalars t :=
  List.map_lt (fun _ _ hlt => hlt) (String.lt_iff_toList_lt.1 h)

end Text

open Expectation Text

/-- Lists of expectations with the same descriptions, in any order and any number, are worded the
same.  The phrase lists the descriptions in the order of the numbers of their characters, each
once. -/
theorem wording_of_descriptions {es es' : List Expectation}
    (h : ∀ s, s ∈ es.map describe ↔ s ∈ es'.map describe) (found : Option String) :
    describeAll es = describeAll es' ∧
      SyntaxError.describe es found = SyntaxError.describe es' found ∧
      ∃ texts : List String, texts.Pairwise (fun s t => scalars s < scalars t) ∧
        (∀ s, s ∈ texts ↔ s ∈ es.map describe) ∧ Phrase texts (describeAll es) := by
  have hall : describeAll es = describeAll es' := congrArg alternatives (descriptions_congr h)
  refine ⟨hall, ?_, descriptions es, ?_, ?_, ?_⟩
  · rw [SyntaxError.describe, hall, SyntaxError.describe]
  · exact (pairwise_descriptions es).imp scalars_lt
  · exact fun s => mem_descriptions
  · exact phrase_alternatives (descriptions es)

/-- A description that repeats, and one that is also a name. -/
theorem wording_of_descriptions_merged :
    describeAll [.other "c", .literal "b" false, .literal "a" true, .literal "a" false] =
      describeAll [.literal "a" false, .other "c", .other "\"b\""] ∧
    describeAll [.literal "a" false, .other "c", .other "\"b\""] = "\"a\", \"b\", or c" := by
  have hleft : [.other "c", .literal "b" false, .literal "a" true, .literal "a" false].map
      describe = ["c", "\"b\"", "\"a\"", "\"a\""] := by decide
  have hright : [.literal "a" false, .other "c", .other "\"b\""].map describe =
      ["\"a\"", "c", "\"b\""] := by decide
  have hordered : descriptions [.literal "a" false, .other "c", .other "\"b\""] =
      ["\"a\"", "\"b\"", "c"] := by
    refine (pairwise_descriptions _).eq_of_mem_iff (by decide) fun s => ?_
    rw [mem_descriptions, hright]
    simp [or_comm]
  constructor
  · refine (wording_of_descriptions (fun s => ?_) none).1
    rw [hleft, hright]
    simp [or_comm, or_left_comm]
  · rw [describeAll, hordered]
    decide

end PegGen
