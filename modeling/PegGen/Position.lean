/-!
# Positions and locations

A position is a point of an input: a line and a column, both counted from one, and the byte offset
if it is known.  Positions are ordered by line, then column, then offset, where a position without
an offset comes first.  A location is what lies between two positions.
-/

namespace PegGen

/-- A point of an input. -/
structure Position where
  /-- The line, from one. -/
  line : Nat
  /-- The column, in characters from one. -/
  column : Nat
  /-- The byte offset, if known. -/
  offset : Option Nat
deriving DecidableEq, Repr

namespace Position

/-- Where every input begins. -/
def start : Position :=
  ⟨1, 1, some 0⟩

instance : Inhabited Position := ⟨start⟩

/-- The line and column after one more character.  The offset stays. -/
def advance (p : Position) (c : Char) : Position :=
  if c = '\n' then { p with line := p.line + 1, column := 1 }
  else { p with column := p.column + 1 }

/-- A position as it is written in messages. -/
def render (p : Position) : String :=
  toString p.line ++ ":" ++ toString p.column

/-- The order of offsets, in which an unknown offset comes first. -/
def compareOffset : Option Nat → Option Nat → Ordering
  | none, none => .eq
  | none, some _ => .lt
  | some _, none => .gt
  | some a, some b => compare a b

/-- The order by line and column. -/
def compareLineColumn (a b : Position) : Ordering :=
  (compare a.line b.line).then (compare a.column b.column)

instance : Ord Position where
  compare a b := (compareLineColumn a b).then (compareOffset a.offset b.offset)

/-- Positions in ascending order. -/
def sort (l : List Position) : List Position :=
  l.mergeSort fun a b => (compare a b).isLE

end Position

/-- What lies between two points of an input. -/
structure Location where
  /-- Where it begins. -/
  start : Position
  /-- Where it ends. -/
  stop : Position
deriving DecidableEq, Repr

namespace Location

/-- The empty location at a point. -/
def point (p : Position) : Location :=
  ⟨p, p⟩

instance : Inhabited Location := ⟨point Position.start⟩

/-- A location as it is written in messages. -/
def render (l : Location) : String :=
  l.start.render ++ "-" ++ l.stop.render

end Location

/-! ## Tests -/

example : (Location.mk ⟨1, 1, none⟩ ⟨2, 7, none⟩).render = "1:1-2:7" := by decide
example : compare (Position.mk 2 1 none) ⟨2, 1, some 9⟩ = .lt := by decide
example : compare (Position.mk 1 9 (some 8)) ⟨2, 1, none⟩ = .lt := by decide

end PegGen
