/-!
# Text by bytes

A text is a list of characters.  Offsets into a text count the bytes of its UTF-8 form, so not
every number up to the length is the offset of a character.  `dropBytes?` and `takeBytes?` cut a
text at an offset and answer `none` when the offset lies inside a character or past the end.

`dropBytes?_eq_some_iff` and `takeBytes?_eq_some_iff` say that cutting at `n` succeeds exactly
for the splits of the text whose first part has `n` bytes.
-/

namespace PegGen.Text

/-- The number of bytes of a text. -/
def byteLength : List Char → Nat
  | [] => 0
  | c :: s => c.utf8Size + byteLength s

@[simp] theorem byteLength_nil : byteLength [] = 0 := rfl

@[simp] theorem byteLength_cons (c : Char) (s : List Char) :
    byteLength (c :: s) = c.utf8Size + byteLength s := rfl

@[simp] theorem byteLength_append (s t : List Char) :
    byteLength (s ++ t) = byteLength s + byteLength t := by
  induction s with
  | nil => simp
  | cons c s ih => simp [ih, Nat.add_assoc]

/-- What follows the first `n` bytes of a text. -/
def dropBytes? : Nat → List Char → Option (List Char)
  | 0, s => some s
  | _ + 1, [] => none
  | n + 1, c :: s => if c.utf8Size ≤ n + 1 then dropBytes? (n + 1 - c.utf8Size) s else none

/-- The first `n` bytes of a text. -/
def takeBytes? : Nat → List Char → Option (List Char)
  | 0, _ => some []
  | _ + 1, [] => none
  | n + 1, c :: s =>
      if c.utf8Size ≤ n + 1 then (takeBytes? (n + 1 - c.utf8Size) s).map (c :: ·) else none

/-- The bytes of a text from offset `start` up to offset `stop`. -/
def sliceBytes? (start stop : Nat) (s : List Char) : Option (List Char) :=
  if start ≤ stop then (dropBytes? start s).bind (takeBytes? (stop - start)) else none

@[simp] theorem dropBytes?_zero (s : List Char) : dropBytes? 0 s = some s := by
  cases s <;> rfl

@[simp] theorem takeBytes?_zero (s : List Char) : takeBytes? 0 s = some [] := by
  cases s <;> rfl

theorem dropBytes?_byteLength_append (p r : List Char) :
    dropBytes? (byteLength p) (p ++ r) = some r := by
  induction p with
  | nil => simp
  | cons c p ih =>
      have hc : 0 < c.utf8Size := c.utf8Size_pos
      obtain ⟨n, hn⟩ : ∃ n, c.utf8Size + byteLength p = n + 1 := ⟨_, (Nat.succ_pred_eq_of_pos
        (Nat.lt_of_lt_of_le hc (Nat.le_add_right ..))).symm⟩
      rw [byteLength_cons, hn, List.cons_append, dropBytes?, if_pos (by omega), ← ih]
      congr 1
      omega

theorem takeBytes?_byteLength_append (p r : List Char) :
    takeBytes? (byteLength p) (p ++ r) = some p := by
  induction p with
  | nil => simp
  | cons c p ih =>
      have hc : 0 < c.utf8Size := c.utf8Size_pos
      obtain ⟨n, hn⟩ : ∃ n, c.utf8Size + byteLength p = n + 1 := ⟨_, (Nat.succ_pred_eq_of_pos
        (Nat.lt_of_lt_of_le hc (Nat.le_add_right ..))).symm⟩
      rw [byteLength_cons, hn, List.cons_append, takeBytes?, if_pos (by omega),
        show n + 1 - c.utf8Size = byteLength p by omega, ih]
      rfl

/-- Dropping `n` bytes leaves `r` exactly when a part of `n` bytes stands before `r`. -/
theorem dropBytes?_eq_some_iff {n : Nat} {s r : List Char} :
    dropBytes? n s = some r ↔ ∃ p, s = p ++ r ∧ byteLength p = n := by
  constructor
  · induction s generalizing n with
    | nil =>
        intro h
        cases n with
        | zero => exact ⟨[], by simpa using h, rfl⟩
        | succ n => simp [dropBytes?] at h
    | cons c s ih =>
        intro h
        cases n with
        | zero => exact ⟨[], by simpa using h, rfl⟩
        | succ n =>
            rw [dropBytes?] at h
            split at h
            · obtain ⟨p, hs, hp⟩ := ih h
              exact ⟨c :: p, by rw [hs]; rfl, by rw [byteLength_cons, hp]; omega⟩
            · cases h
  · rintro ⟨p, rfl, rfl⟩
    exact dropBytes?_byteLength_append p r

/-- Taking `n` bytes gives `p` exactly when the text starts with `p` and `p` has `n` bytes. -/
theorem takeBytes?_eq_some_iff {n : Nat} {s p : List Char} :
    takeBytes? n s = some p ↔ ∃ r, s = p ++ r ∧ byteLength p = n := by
  constructor
  · induction s generalizing n p with
    | nil =>
        intro h
        cases n with
        | zero => exact ⟨[], by simpa using h, by simp_all⟩
        | succ n => simp [takeBytes?] at h
    | cons c s ih =>
        intro h
        cases n with
        | zero =>
            rw [takeBytes?_zero, Option.some.injEq] at h
            exact ⟨c :: s, by rw [← h]; rfl, by rw [← h]; rfl⟩
        | succ n =>
            rw [takeBytes?] at h
            split at h
            · obtain ⟨q, hq, rfl⟩ := Option.map_eq_some_iff.1 h
              obtain ⟨r, hs, hp⟩ := ih hq
              exact ⟨r, by rw [hs]; rfl, by rw [byteLength_cons, hp]; omega⟩
            · cases h
  · rintro ⟨r, rfl, rfl⟩
    exact takeBytes?_byteLength_append p r

end PegGen.Text
