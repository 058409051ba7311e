import PegGen.Proofs.Parse.PositionCache

/-!
# Positions are in the order of offsets

A text that goes on after a position leads to a later one: to a later line if there is a line feed
in it, and to a later column of the same line otherwise (`Position.compareLineColumn_append`).  So
lines and columns alone compare as the offsets do, and comparing offsets after them changes nothing
(`Position.compare_ofOffset`).
-/

namespace PegGen

open Text

theorem Text.lastLine_append {t : List Char} (ht : '\n' ∉ t) (s : List Char) :
    lastLine (s ++ t) = lastLine s ++ t := by
  have hall : ∀ c ∈ t.reverse, (decide (c ≠ '\n')) = true := by
    intro c hc
    exact decide_eq_true fun h => ht (h ▸ List.mem_reverse.1 hc)
  rw [lastLine, List.reverse_append, List.takeWhile_append_of_pos hall, List.reverse_append,
    List.reverse_reverse, lastLine]

namespace Position

theorem compareLineColumn_swap (p q : Position) :
    (compareLineColumn p q).swap = compareLineColumn q p := by
  rw [compareLineColumn, compareLineColumn, Ordering.swap_then, Nat.compare_swap,
    Nat.compare_swap]

/-- Every text leads on. -/
theorem compareLineColumn_append (before : List Char) {t : List Char} (ht : t ≠ []) :
    compareLineColumn (after before) (after (before ++ t)) = .lt := by
  by_cases hline : '\n' ∈ t
  · have hlines : (after before).line < (after (before ++ t)).line := by
      have hcount := List.count_pos_iff.2 hline
      simp only [after, List.count_append]
      omega
    rw [compareLineColumn, Nat.compare_eq_lt.2 hlines]
    rfl
  · have hlines : (after before).line = (after (before ++ t)).line := by
      simp [after, List.count_append, List.count_eq_zero.2 hline]
    have hcolumns : (after before).column < (after (before ++ t)).column := by
      have hlength := List.length_pos_iff.2 ht
      simp only [after, lastLine_append hline, List.length_append]
      omega
    rw [compareLineColumn, Nat.compare_eq_eq.2 hlines, Nat.compare_eq_lt.2 hcolumns]
    rfl

variable {input : List Char} {a b : Nat}

theorem compareLineColumn_of_lt (ha : IsBoundary a input) (hb : IsBoundary b input) (hab : a < b) :
    compareLineColumn (ofOffset input a) (ofOffset input b) = .lt := by
  obtain ⟨before, t, rest, rfl, rfl, rfl⟩ := ha.exists_between hb (Nat.le_of_lt hab)
  have ht : t ≠ [] := by
    rintro rfl
    simp at hab
  rw [ofOffset_append, List.append_assoc, ofOffset_append]
  exact compareLineColumn_append before ht

/-- Lines and columns are in the order of offsets. -/
theorem compareLineColumn_ofOffset (ha : IsBoundary a input) (hb : IsBoundary b input) :
    compareLineColumn (ofOffset input a) (ofOffset input b) = compare a b := by
  rcases Nat.lt_trichotomy a b with hab | rfl | hab
  · rw [compareLineColumn_of_lt ha hb hab, Nat.compare_eq_lt.2 hab]
  · simp [compareLineColumn]
  · rw [← compareLineColumn_swap, compareLineColumn_of_lt hb ha hab, Nat.compare_eq_gt.2 hab]
    rfl

theorem offset_ofOffset (ha : IsBoundary a input) : (ofOffset input a).offset = some a := by
  obtain ⟨before, rest, rfl, rfl⟩ := ha
  rw [ofOffset_append]
  rfl

/-- Positions are in the order of offsets. -/
theorem compare_ofOffset (ha : IsBoundary a input) (hb : IsBoundary b input) :
    compare (ofOffset input a) (ofOffset input b) = compare a b := by
  show (compareLineColumn _ _).then (compareOffset _ _) = _
  rw [compareLineColumn_ofOffset ha hb, offset_ofOffset ha, offset_ofOffset hb, compareOffset]
  cases compare a b <;> rfl

end Position

namespace Location

/-- The location does not end before it begins. -/
def Ordered (l : Location) : Prop :=
  (compare l.start l.stop).isLE

instance (l : Location) : Decidable l.Ordered :=
  inferInstanceAs (Decidable (_ = true))

variable {input : List Char} {a b : Nat}

theorem ordered_ofOffset_iff (ha : IsBoundary a input) (hb : IsBoundary b input) :
    Ordered ⟨.ofOffset input a, .ofOffset input b⟩ ↔ a ≤ b := by
  rw [Ordered, Position.compare_ofOffset ha hb, Nat.isLE_compare]

end Location

end PegGen
