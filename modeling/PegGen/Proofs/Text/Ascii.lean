import PegGen.Proofs.Text.LineEnds
import PegGen.Text.Bytes
import PegGen.Text.Case
import PegGen.Text.Units

/-!
# ASCII texts

In an ASCII text a character, a byte and a UTF-16 unit are the same thing, so offsets count all of
them, and case conversion goes character by character.

The printable characters are the ASCII characters from the blank to the tilde.  A printable text is
one line.
-/

namespace PegGen.Text

/-- All characters of the text are ASCII. -/
def IsAscii (s : List Char) : Prop :=
  ∀ c ∈ s, c.toNat < 128

instance (s : List Char) : Decidable (IsAscii s) :=
  List.decidableBAll (fun c : Char => c.toNat < 128) s

namespace IsAscii

variable {s t : List Char}

theorem mono (hs : IsAscii s) (h : t ⊆ s) : IsAscii t :=
  fun c hc => hs c (h hc)

theorem drop (hs : IsAscii s) (n : Nat) : IsAscii (s.drop n) :=
  hs.mono (List.drop_subset n s)

theorem take (hs : IsAscii s) (n : Nat) : IsAscii (s.take n) :=
  hs.mono (List.take_subset n s)

end IsAscii

/-! ## Bytes -/

/-- An ASCII character takes one byte. -/
theorem utf8Size_of_lt {c : Char} (hc : c.toNat < 128) : c.utf8Size = 1 :=
  Char.utf8Size_eq_one_iff.2 (UInt32.le_iff_toNat_le.2 (Nat.le_of_lt_succ hc))

/-- An ASCII text is as long in bytes as in characters. -/
theorem byteLength_of_isAscii {s : List Char} (hs : IsAscii s) : byteLength s = s.length := by
  induction s with
  | nil => rfl
  | cons c s ih =>
      rw [byteLength_cons, utf8Size_of_lt (hs c (.head _)), ih fun d hd => hs d (.tail _ hd),
        List.length_cons, Nat.add_comm]

/-- In an ASCII text every offset is a boundary. -/
theorem dropBytes?_of_isAscii {s : List Char} (hs : IsAscii s) {n : Nat} (hn : n ≤ s.length) :
    dropBytes? n s = some (s.drop n) := by
  refine dropBytes?_eq_some_iff.2 ⟨s.take n, (List.take_append_drop n s).symm, ?_⟩
  rw [byteLength_of_isAscii (hs.take n), List.length_take_of_le hn]

/-! ## Units -/

/-- An ASCII character is one unit. -/
theorem charUnits_of_lt {c : Char} (hc : c.toNat < 128) : charUnits c = [c.toNat] :=
  if_pos (Nat.lt_trans hc (by decide))

/-- The units of an ASCII text are its characters. -/
theorem units_of_isAscii {s : List Char} (hs : IsAscii s) : units s = s.map Char.toNat := by
  induction s with
  | nil => rfl
  | cons c s ih =>
      rw [units, List.flatMap_cons, charUnits_of_lt (hs c (.head _)), List.map_cons,
        ← ih fun d hd => hs d (.tail _ hd)]
      rfl

theorem length_units {s : List Char} (hs : IsAscii s) : (units s).length = s.length := by
  rw [units_of_isAscii hs, List.length_map]

/-- A stretch of the units is that stretch of the text. -/
theorem take_drop_units {s : List Char} (hs : IsAscii s) (start n : Nat) :
    ((units s).drop start).take n = units ((s.drop start).take n) := by
  rw [units_of_isAscii hs, units_of_isAscii ((hs.drop start).take n), List.map_take,
    List.map_drop]

/-- ASCII texts are told apart by their units. -/
theorem units_inj {s t : List Char} (hs : IsAscii s) (ht : IsAscii t) :
    units s = units t ↔ s = t := by
  rw [units_of_isAscii hs, units_of_isAscii ht]
  exact List.map_inj_right fun _ _ => Char.toNat_inj.1

/-! ## Case -/

/-- What holds of all ASCII characters, checked one by one. -/
theorem forall_ascii {P : Char → Prop} (h : ∀ n < 128, P (Char.ofNat n)) {c : Char}
    (hc : c.toNat < 128) : P c := by
  have hp := h c.toNat hc
  rwa [Char.ofNat_toNat] at hp

/-- Lower case of an ASCII character is ASCII. -/
theorem toLower_lt {c : Char} (hc : c.toNat < 128) : c.toLower.toNat < 128 :=
  forall_ascii (P := fun c => c.toLower.toNat < 128) (by decide) hc

theorem toUpper_lt {c : Char} (hc : c.toNat < 128) : c.toUpper.toNat < 128 :=
  forall_ascii (P := fun c => c.toUpper.toNat < 128) (by decide) hc

/-- In an ASCII text lower case is a matter of single characters. -/
theorem lower_of_isAscii {s : List Char} (hs : IsAscii s) : lower s = s.map Char.toLower := by
  have hafter : ∀ before, lowerAfter before s = s.map Char.toLower := by
    induction s with
    | nil => exact fun _ => rfl
    | cons c s ih =>
        intro before
        have hc := hs c (.head _)
        have hsigma : c ≠ 'Σ' := by
          rintro rfl
          exact absurd hc (by decide)
        rw [lowerAfter, if_neg hsigma, lowerChar_of_lt hc, ih fun d hd => hs d (.tail _ hd)]
        rfl
  exact hafter []

theorem IsAscii.lower {s : List Char} (hs : IsAscii s) : IsAscii (lower s) := by
  rw [lower_of_isAscii hs]
  intro c hc
  obtain ⟨d, hd, rfl⟩ := List.mem_map.1 hc
  exact toLower_lt (hs d hd)

/-! ## Printable texts -/

/-- All characters of the text are printable ASCII. -/
def IsPrintable (s : List Char) : Prop :=
  ∀ c ∈ s, 0x20 ≤ c.toNat ∧ c.toNat ≤ 0x7E

instance (s : List Char) : Decidable (IsPrintable s) :=
  List.decidableBAll (fun c : Char => 0x20 ≤ c.toNat ∧ c.toNat ≤ 0x7E) s

theorem isPrintable_nil : IsPrintable [] :=
  List.forall_mem_nil _

@[simp] theorem isPrintable_append {s t : List Char} :
    IsPrintable (s ++ t) ↔ IsPrintable s ∧ IsPrintable t :=
  List.forall_mem_append

theorem isPrintable_cons {c : Char} {s : List Char} :
    IsPrintable (c :: s) ↔ (0x20 ≤ c.toNat ∧ c.toNat ≤ 0x7E) ∧ IsPrintable s :=
  List.forall_mem_cons

/-- What is written printably for each value is printable together. -/
theorem isPrintable_flatMap {α : Type} {write : α → List Char} {l : List α}
    (h : ∀ a ∈ l, IsPrintable (write a)) : IsPrintable (l.flatMap write) := by
  intro c hc
  obtain ⟨a, ha, hmem⟩ := List.mem_flatMap.1 hc
  exact h a ha c hmem

/-- Hexadecimal digits are printable. -/
theorem isPrintable_hex (width n : Nat) : IsPrintable (hex width n) := by
  have hdigit : ∀ d < 16, IsPrintable [hexDigit d] := by decide
  induction width generalizing n with
  | zero => exact isPrintable_nil
  | succ width ih =>
      exact isPrintable_append.2 ⟨ih _, hdigit _ (Nat.mod_lt _ (by decide))⟩

/-- So are printable texts with a printable separator between them. -/
theorem isPrintable_joinWith {sep : String} (hsep : IsPrintable sep.toList) {l : List String}
    (h : ∀ s ∈ l, IsPrintable s.toList) : IsPrintable (joinWith sep l).toList := by
  cases l with
  | nil => exact isPrintable_nil
  | cons s rest =>
      rw [toList_joinWith_cons, isPrintable_append]
      exact ⟨h s (.head _), isPrintable_flatMap fun t ht =>
        isPrintable_append.2 ⟨hsep, h t (.tail _ ht)⟩⟩

/-- A printable text is a single line. -/
theorem splitLines_of_isPrintable {s : List Char} (h : IsPrintable s) : splitLines s = [s] :=
  splitLines_of_notMem fun hmem => absurd (h _ hmem) (by decide)

end PegGen.Text
