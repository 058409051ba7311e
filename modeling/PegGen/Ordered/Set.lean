/-!
# Insertion-ordered sets

A set that remembers the order in which its elements were first inserted.  An element inserted
again changes nothing.  `toList` is the view of a set: `toList_insert` says what an insertion does
to it, and two sets with the same view are equal.
-/

namespace PegGen

/-- A list without repetition, read as a set with an order. -/
@[ext] structure OrderedSet (α : Type) where
  /-- The elements, first inserted first. -/
  toList : List α
  /-- No element occurs twice. -/
  nodup : toList.Nodup
deriving DecidableEq

namespace OrderedSet

variable {α : Type}

/-- The set without elements. -/
def empty : OrderedSet α :=
  ⟨[], List.nodup_nil⟩

instance : EmptyCollection (OrderedSet α) := ⟨empty⟩

instance : Inhabited (OrderedSet α) := ⟨empty⟩

instance : Membership α (OrderedSet α) := ⟨fun s a => a ∈ s.toList⟩

instance [DecidableEq α] (a : α) (s : OrderedSet α) : Decidable (a ∈ s) :=
  inferInstanceAs (Decidable (a ∈ s.toList))

/-- The number of elements. -/
def size (s : OrderedSet α) : Nat :=
  s.toList.length

theorem mem_def {a : α} {s : OrderedSet α} : a ∈ s ↔ a ∈ s.toList := Iff.rfl

@[simp] theorem toList_empty : (∅ : OrderedSet α).toList = [] := rfl

variable [DecidableEq α]

/-- Put an element last, unless the set has it already. -/
def insert (s : OrderedSet α) (a : α) : OrderedSet α :=
  if h : a ∈ s.toList then s
  else
    ⟨s.toList ++ [a], List.nodup_append.2 ⟨s.nodup, by simp, fun b hb c hc heq =>
      h (by rw [List.mem_singleton] at hc; exact hc ▸ heq ▸ hb)⟩⟩

/-- Put the elements of a list one after the other. -/
def insertAll (s : OrderedSet α) (l : List α) : OrderedSet α :=
  l.foldl insert s

/-- The set of the elements of a list, in order of first occurrence. -/
def ofList (l : List α) : OrderedSet α :=
  insertAll ∅ l

/-- The place of an element, counted from zero. -/
def indexOf? (s : OrderedSet α) (a : α) : Option Nat :=
  s.toList.idxOf? a

theorem toList_insert (s : OrderedSet α) (a : α) :
    (s.insert a).toList = if a ∈ s.toList then s.toList else s.toList ++ [a] := by
  unfold insert
  split <;> rfl

@[simp] theorem mem_insert {s : OrderedSet α} {a b : α} : b ∈ s.insert a ↔ b ∈ s ∨ b = a := by
  rw [mem_def, toList_insert, mem_def]
  split
  · constructor
    · exact Or.inl
    · rintro (h | rfl) <;> assumption
  · simp

theorem toList_insert_ne_nil (s : OrderedSet α) (a : α) : (s.insert a).toList ≠ [] := by
  have ha : a ∈ (s.insert a).toList := mem_insert.2 (.inr rfl)
  exact List.ne_nil_of_mem ha

theorem insert_of_mem {s : OrderedSet α} {a : α} (h : a ∈ s) : s.insert a = s :=
  OrderedSet.ext (by rw [toList_insert, if_pos (mem_def.1 h)])

@[simp] theorem insertAll_nil (s : OrderedSet α) : s.insertAll [] = s := rfl

@[simp] theorem insertAll_cons (s : OrderedSet α) (a : α) (l : List α) :
    s.insertAll (a :: l) = (s.insert a).insertAll l := rfl

@[simp] theorem mem_insertAll {s : OrderedSet α} {l : List α} {b : α} :
    b ∈ s.insertAll l ↔ b ∈ s ∨ b ∈ l := by
  induction l generalizing s with
  | nil => simp
  | cons a l ih => simp [ih, or_assoc]

@[simp] theorem mem_ofList {l : List α} {a : α} : a ∈ ofList l ↔ a ∈ l := by
  rw [ofList, mem_insertAll, mem_def]
  simp

end OrderedSet

end PegGen
