/-!
# Insertion-ordered maps

A map from names to values that remembers the order in which its names were first inserted.  A
name inserted again takes the new value and keeps its first place.
-/

namespace PegGen

/-- A list of named values in which no name occurs twice. -/
@[ext] structure OrderedMap (α : Type) where
  /-- The named values, first inserted first. -/
  entries : List (String × α)
  /-- No name occurs twice. -/
  nodup : (entries.map Prod.fst).Nodup

namespace OrderedMap

variable {α β : Type}

/-- The map without names. -/
def empty : OrderedMap α :=
  ⟨[], List.nodup_nil⟩

instance : EmptyCollection (OrderedMap α) := ⟨empty⟩

instance : Inhabited (OrderedMap α) := ⟨empty⟩

/-- The names, in order. -/
def keys (m : OrderedMap α) : List String :=
  m.entries.map Prod.fst

/-- The values, in the order of their names. -/
def values (m : OrderedMap α) : List α :=
  m.entries.map Prod.snd

/-- A list of named values in which `key` gets the value `a`, in its place if it has one. -/
def insertEntry (key : String) (a : α) : List (String × α) → List (String × α)
  | [] => [(key, a)]
  | e :: es => if e.1 = key then (key, a) :: es else e :: insertEntry key a es

theorem map_fst_insertEntry (key : String) (a : α) (es : List (String × α)) :
    (insertEntry key a es).map Prod.fst =
      if key ∈ es.map Prod.fst then es.map Prod.fst else es.map Prod.fst ++ [key] := by
  induction es with
  | nil => simp [insertEntry]
  | cons e es ih =>
      rw [insertEntry]
      by_cases he : e.1 = key
      · simp [he]
      · rw [if_neg he, List.map_cons, ih, List.map_cons]
        have hk : key ∈ e.1 :: es.map Prod.fst ↔ key ∈ es.map Prod.fst := by
          simp [Ne.symm he]
        by_cases hm : key ∈ es.map Prod.fst
        · rw [if_pos hm, if_pos (hk.2 hm)]
        · rw [if_neg hm, if_neg (mt hk.1 hm), List.cons_append]

/-- Give a name a value. -/
def insert (m : OrderedMap α) (key : String) (a : α) : OrderedMap α where
  entries := insertEntry key a m.entries
  nodup := by
    rw [map_fst_insertEntry]
    split
    · exact m.nodup
    · next h =>
      refine List.nodup_append.2 ⟨m.nodup, by simp, fun b hb c hc heq => h ?_⟩
      rw [List.mem_singleton] at hc
      exact hc ▸ heq ▸ hb

theorem keys_insert (m : OrderedMap α) (key : String) (a : α) :
    (m.insert key a).keys = if key ∈ m.keys then m.keys else m.keys ++ [key] :=
  map_fst_insertEntry key a m.entries

/-- The map of a list of named values, inserted one after the other. -/
def ofList (l : List (String × α)) : OrderedMap α :=
  l.foldl (fun m e => m.insert e.1 e.2) ∅

/-- A function applied to every value. -/
def map (f : α → β) (m : OrderedMap α) : OrderedMap β where
  entries := m.entries.map fun e => (e.1, f e.2)
  nodup := by
    rw [List.map_map]
    exact m.nodup

@[simp] theorem keys_map (f : α → β) (m : OrderedMap α) : (m.map f).keys = m.keys := by
  simp [keys, map]

@[simp] theorem values_map (f : α → β) (m : OrderedMap α) :
    (m.map f).values = m.values.map f := by
  simp [values, map]

end OrderedMap

end PegGen
