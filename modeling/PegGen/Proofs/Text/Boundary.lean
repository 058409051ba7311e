import PegGen.Text.Bytes

/-!
# Boundaries

An offset is a boundary of a text if it lies between two of its characters, or at one of its ends.
Cutting a text succeeds at its boundaries and nowhere else.

A text has one front of every length at most (`append_inj_of_byteLength`), so two boundaries in
order cut out exactly one piece (`IsBoundary.exists_between`).
-/

namespace PegGen.Text

/-- The offset lies between two characters of the text, or at one of its ends. -/
def IsBoundary (n : Nat) (s : List Char) : Prop :=
  ∃ before after, s = before ++ after ∧ byteLength before = n

theorem isBoundary_iff_isSome {n : Nat} {s : List Char} :
    IsBoundary n s ↔ (dropBytes? n s).isSome := by
  rw [Option.isSome_iff_exists]
  constructor
  · rintro ⟨before, after, hs, hn⟩
    exact ⟨after, dropBytes?_eq_some_iff.2 ⟨before, hs, hn⟩⟩
  · rintro ⟨after, h⟩
    obtain ⟨before, hs, hn⟩ := dropBytes?_eq_some_iff.1 h
    exact ⟨before, after, hs, hn⟩

instance (n : Nat) (s : List Char) : Decidable (IsBoundary n s) :=
  decidable_of_iff _ isBoundary_iff_isSome.symm

@[simp] theorem byteLength_eq_zero_iff {s : List Char} : byteLength s = 0 ↔ s = [] := by
  cases s with
  | nil => simp
  | cons c s =>
      have hc := c.utf8Size_pos
      simp only [byteLength_cons, reduceCtorEq, iff_false]
      omega

/-- A text is cut in one way only at an offset. -/
theorem append_inj_of_byteLength {p r p' r' : List Char} (h : p ++ r = p' ++ r')
    (hlength : byteLength p = byteLength p') : p = p' ∧ r = r' := by
  have hp := takeBytes?_byteLength_append p r
  rw [hlength, h, takeBytes?_byteLength_append p' r'] at hp
  cases hp
  exact ⟨rfl, List.append_cancel_left h⟩

namespace IsBoundary

variable {a b : Nat} {s : List Char}

theorem append (before after : List Char) :
    IsBoundary (byteLength before) (before ++ after) :=
  ⟨before, after, rfl, rfl⟩

theorem zero (s : List Char) : IsBoundary 0 s :=
  append [] s

theorem le_byteLength (ha : IsBoundary a s) : a ≤ byteLength s := by
  obtain ⟨before, after, rfl, rfl⟩ := ha
  rw [byteLength_append]
  omega

/-- A boundary of a text is one of a longer text that ends with it. -/
theorem behind (ha : IsBoundary a s) (before : List Char) :
    IsBoundary (byteLength before + a) (before ++ s) := by
  obtain ⟨t, rest, rfl, rfl⟩ := ha
  exact ⟨before ++ t, rest, (List.append_assoc ..).symm, byteLength_append ..⟩

/-- What lies between two boundaries.  Of the two fronts of the text one is a front of the other,
and the first is not longer. -/
theorem exists_between (ha : IsBoundary a s) (hb : IsBoundary b s) (hab : a ≤ b) :
    ∃ before t after, s = before ++ t ++ after ∧ byteLength before = a ∧
      byteLength (before ++ t) = b := by
  obtain ⟨p, r, hs, rfl⟩ := ha
  obtain ⟨q, r', hs', rfl⟩ := hb
  rw [hs] at hs'
  rcases List.append_eq_append_iff.1 hs' with ⟨t, rfl, rfl⟩ | ⟨t, rfl, rfl⟩
  · exact ⟨p, t, r', by rw [hs, List.append_assoc], rfl, rfl⟩
  · have ht : t = [] := by
      rw [byteLength_append] at hab
      exact byteLength_eq_zero_iff.1 (by omega)
    subst ht
    exact ⟨q, [], r, by simpa using hs, by simp, by simp⟩

end IsBoundary

/-- Past the character after a boundary, if there is one, is a boundary too. -/
theorem isBoundary_after_head {n : Nat} {s before rest : List Char} (hs : s = before ++ rest)
    (hn : byteLength before = n) : IsBoundary (n + byteLength rest.head?.toList) s := by
  refine ⟨before ++ rest.head?.toList, rest.tail, ?_, by rw [byteLength_append, hn]⟩
  cases rest with
  | nil => simpa using hs
  | cons c rest => simpa using hs

theorem sliceBytes?_eq_some_iff {start stop : Nat} {s t : List Char} :
    sliceBytes? start stop s = some t ↔ ∃ before after, s = before ++ t ++ after ∧
      byteLength before = start ∧ byteLength (before ++ t) = stop := by
  rw [sliceBytes?]
  constructor
  · intro h
    split at h
    next hle =>
      obtain ⟨rest, hrest, ht⟩ := Option.bind_eq_some_iff.1 h
      obtain ⟨before, rfl, hbefore⟩ := dropBytes?_eq_some_iff.1 hrest
      obtain ⟨after, rfl, hlength⟩ := takeBytes?_eq_some_iff.1 ht
      refine ⟨before, after, by rw [List.append_assoc], hbefore, ?_⟩
      rw [byteLength_append]
      omega
    next => cases h
  · rintro ⟨before, after, rfl, rfl, rfl⟩
    rw [byteLength_append, if_pos (Nat.le_add_right ..), List.append_assoc,
      dropBytes?_byteLength_append, Option.bind_some, Nat.add_sub_cancel_left,
      takeBytes?_byteLength_append]

end PegGen.Text
