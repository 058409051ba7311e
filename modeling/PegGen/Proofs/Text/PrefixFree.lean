import Mathlib.Algebra.Group.Nat.Defs
import PegGen.Text.Lines
import PegGen.Text.Units

/-!
# Texts that can be told from what follows

A way to write values is prefix-free if a written value can be split off the front of any text that
begins with it, in one way only.  Then the value and the rest of the text are known.  A code of this
kind goes on being one when it is put together with others: values written one after the other up to
a mark (`PrefixFree.terminated`), or between separators (`PrefixFree.joined`).

Two codes of numbers are prefix-free: a fixed number of hexadecimal digits (`hex_append_inj`), and
the UTF-16 units of a character (`charUnits_append_inj`).
-/

namespace PegGen.Text

variable {α : Type}

/-- A written value can be told from whatever follows it. -/
def PrefixFree (write : α → List Char) : Prop :=
  ∀ {a b : α} {s t : List Char}, write a ++ s = write b ++ t → a = b ∧ s = t

/-- No written value begins with the mark, and each has a beginning. -/
def NeverBegins (write : α → List Char) (mark : Char) : Prop :=
  ∀ a, ∃ c s, write a = c :: s ∧ c ≠ mark

namespace PrefixFree

variable {write : α → List Char}

/-- Values one after the other, up to a mark with which none begins. -/
theorem terminated (h : PrefixFree write) {mark : Char} (hmark : NeverBegins write mark) :
    PrefixFree fun as : List α => as.flatMap write ++ [mark] := by
  have hend : ∀ a s t, write a ++ s ≠ mark :: t := by
    intro a s t heq
    obtain ⟨c, s', hc, hne⟩ := hmark a
    rw [hc] at heq
    exact hne (List.cons.inj heq).1
  intro as
  induction as with
  | nil =>
      intro bs s t heq
      cases bs with
      | nil => exact ⟨rfl, List.cons.inj heq |>.2⟩
      | cons b bs =>
          simp only [List.flatMap_cons, List.append_assoc] at heq
          exact absurd heq.symm (hend b _ _)
  | cons a as ih =>
      intro bs s t heq
      cases bs with
      | nil =>
          simp only [List.flatMap_cons, List.append_assoc] at heq
          exact absurd heq (hend a _ _)
      | cons b bs =>
          simp only [List.flatMap_cons, List.append_assoc] at heq
          obtain ⟨rfl, hrest⟩ := h heq
          obtain ⟨rfl, rfl⟩ := ih (by simpa using hrest)
          exact ⟨rfl, rfl⟩

theorem terminated_inj (h : PrefixFree write) {mark : Char} (hmark : NeverBegins write mark)
    {as bs : List α} (heq : as.flatMap write ++ [mark] = bs.flatMap write ++ [mark]) : as = bs :=
  (h.terminated hmark (congrArg (· ++ []) heq)).1

end PrefixFree

/-! ## Separators -/

/-- Values between separators, up to a mark with which neither a value nor a separator begins.
Behind the first value each value comes with the separator in front of it. -/
theorem PrefixFree.joined {write : α → String} (h : PrefixFree fun a => (write a).toList)
    {sep : String} {mark first : Char} {sepRest : List Char} (hsep : sep.toList = first :: sepRest)
    (hfirst : first ≠ mark) (hmark : NeverBegins (fun a => (write a).toList) mark) :
    PrefixFree fun as : List α => (joinWith sep (as.map write)).toList ++ [mark] := by
  have hlater : PrefixFree fun as : List α =>
      (as.flatMap fun a => sep.toList ++ (write a).toList) ++ [mark] := by
    refine terminated ?_ fun a => ⟨first, sepRest ++ (write a).toList, by simp [hsep], hfirst⟩
    intro a b s t heq
    simp only [List.append_assoc] at heq
    exact h (List.append_cancel_left heq)
  intro as bs s t heq
  cases as with
  | nil =>
      cases bs with
      | nil => exact ⟨rfl, by simpa using heq⟩
      | cons b bs =>
          obtain ⟨c, r, hc, hne⟩ := hmark b
          simp [toList_joinWith_cons, hc, hne.symm] at heq
  | cons a as =>
      cases bs with
      | nil =>
          obtain ⟨c, r, hc, hne⟩ := hmark a
          simp [toList_joinWith_cons, hc, hne] at heq
      | cons b bs =>
          simp only [List.map_cons, toList_joinWith_cons, List.flatMap_map,
            List.append_assoc] at heq
          obtain ⟨rfl, hrest⟩ := h heq
          obtain ⟨rfl, rfl⟩ := hlater (by simpa using hrest)
          exact ⟨rfl, rfl⟩

/-! ## Numbers -/

theorem hexDigit_inj {d e : Nat} (hd : d < 16) (he : e < 16) (h : hexDigit d = hexDigit e) :
    d = e := by
  have hall : ∀ d < 16, ∀ e < 16, hexDigit d = hexDigit e → d = e := by decide
  exact hall d hd e he h

theorem hex_inj {width n m : Nat} (hn : n < 16 ^ width) (hm : m < 16 ^ width)
    (h : hex width n = hex width m) : n = m := by
  induction width generalizing n m with
  | zero =>
      rw [Nat.pow_zero] at hn hm
      omega
  | succ width ih =>
      obtain ⟨hfront, hlast⟩ := List.append_inj' h rfl
      rw [Nat.pow_succ] at hn hm
      have hdiv : n / 16 = m / 16 := ih (by omega) (by omega) hfront
      have hmod : n % 16 = m % 16 :=
        hexDigit_inj (Nat.mod_lt _ (by decide)) (Nat.mod_lt _ (by decide)) (List.cons.inj hlast).1
      omega

theorem hex_append_inj {width n m : Nat} (hn : n < 16 ^ width) (hm : m < 16 ^ width)
    {s t : List Char} (h : hex width n ++ s = hex width m ++ t) : n = m ∧ s = t := by
  obtain ⟨hdigits, hrest⟩ := List.append_inj h (by rw [length_hex, length_hex])
  exact ⟨hex_inj hn hm hdigits, hrest⟩

/-- The first of two units is a surrogate, so it is not the only unit of another character. -/
theorem charUnits_append_inj {c d : Char} {s t : List Nat}
    (h : charUnits c ++ s = charUnits d ++ t) : c = d ∧ s = t := by
  have hc := toNat_valid c
  have hd := toNat_valid d
  simp only [charUnits] at h
  split at h
  next =>
    split at h
    next =>
      obtain ⟨hn, hrest⟩ := List.cons.inj h
      exact ⟨Char.toNat_inj.1 hn, hrest⟩
    next =>
      obtain ⟨hn, -⟩ := List.cons.inj h
      omega
  next =>
    split at h
    next =>
      obtain ⟨hn, -⟩ := List.cons.inj h
      omega
    next =>
      obtain ⟨hhigh, hrest⟩ := List.cons.inj h
      obtain ⟨hlow, hrest⟩ := List.cons.inj hrest
      exact ⟨Char.toNat_inj.1 (by omega), hrest⟩

end PegGen.Text
