/-!
# Lines and lists of texts

Two readings of a text as lines.  `splitLines` cuts at every line feed and keeps what stands
between, so a text that ends in a line feed has an empty last line.  `logicalLines` reads a text
the way a template is written: a line feed ends a line, a carriage return right before it belongs
to the line end, and nothing stands after the last line end.

`joinWith` is the way back: it writes a list of texts with a separator between them.
-/

namespace PegGen.Text

/-- The pieces of a text between its line feeds.  There is always at least one. -/
def splitLines : List Char → List (List Char)
  | [] => [[]]
  | c :: s =>
      if c = '\n' then [] :: splitLines s
      else
        match splitLines s with
        | [] => [[c]]
        | l :: ls => (c :: l) :: ls

theorem splitLines_ne_nil (s : List Char) : splitLines s ≠ [] := by
  cases s with
  | nil => simp [splitLines]
  | cons c s =>
      rw [splitLines]
      split
      · simp
      · split <;> simp

/-- A line without the one carriage return that may end it. -/
def dropReturn (l : List Char) : List Char :=
  if l.getLast? = some '\r' then l.dropLast else l

/-- A line without any of the carriage returns that end it. -/
def dropReturns (l : List Char) : List Char :=
  (l.reverse.dropWhile (· = '\r')).reverse

/-- The lines of a template, from the pieces between its line feeds. -/
def closedLines : List (List Char) → List (List Char)
  | [] => []
  | [l] => if l = [] then [] else [l]
  | l :: ls => dropReturn l :: closedLines ls

/-- The lines of a template. -/
def logicalLines (s : List Char) : List (List Char) :=
  closedLines (splitLines s)

/-- Texts one after the other, with a separator between neighbours. -/
def joinWith (sep : String) : List String → String
  | [] => ""
  | s :: rest => rest.foldl (fun joined t => joined ++ sep ++ t) s

theorem foldl_join_append (sep s t : String) (rest : List String) :
    rest.foldl (fun joined t => joined ++ sep ++ t) (s ++ t) =
      s ++ rest.foldl (fun joined t => joined ++ sep ++ t) t := by
  induction rest generalizing t with
  | nil => rfl
  | cons u rest ih =>
      rw [List.foldl_cons, List.foldl_cons, ← ih]
      simp only [String.append_assoc]

@[simp] theorem joinWith_nil (sep : String) : joinWith sep [] = "" := rfl

@[simp] theorem joinWith_singleton (sep s : String) : joinWith sep [s] = s := rfl

@[simp] theorem joinWith_cons_cons (sep s t : String) (rest : List String) :
    joinWith sep (s :: t :: rest) = s ++ sep ++ joinWith sep (t :: rest) :=
  foldl_join_append sep (s ++ sep) t rest

theorem toList_joinWith_cons (sep s : String) (rest : List String) :
    (joinWith sep (s :: rest)).toList =
      s.toList ++ rest.flatMap fun t => sep.toList ++ t.toList := by
  induction rest generalizing s with
  | nil => simp
  | cons t rest ih =>
      rw [joinWith_cons_cons, String.toList_append, String.toList_append, ih, List.flatMap_cons]
      simp only [List.append_assoc]

/-- A character written `n` times. -/
def repeated (n : Nat) (c : Char) : String :=
  String.ofList (List.replicate n c)

/-- A text filled up with blanks on the right to at least `width` characters. -/
def padRight (width : Nat) (s : String) : String :=
  s ++ repeated (width - s.toList.length) ' '

/-! ## Tests -/

example : splitLines "a\nb\n".toList = ["a".toList, "b".toList, []] := by decide
example : logicalLines "a\r\nb\n".toList = ["a".toList, "b".toList] := by decide
example : logicalLines "\n\r".toList = [[], "\r".toList] := by decide
example : dropReturns "a\r\r".toList = "a".toList := by decide

end PegGen.Text
