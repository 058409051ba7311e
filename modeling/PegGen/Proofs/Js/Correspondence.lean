import PegGen.Proofs.Grammar.EvalRun
import PegGen.Proofs.Js.Leaves

/-!
# Corresponding states

A parse state and the memory of a running parser correspond when they agree on the position, the
count of silencers and the furthest failure, where the memory has the numbers of constants for
expectations.

The code of an expression agrees with the evaluation of the expression if it ends in a corresponding
state, with what the evaluation gives in its target register (`CodeAgrees`).  It may use the target
and registers that it has asked for itself, so the registers that were handed out before keep what
they hold.  That is what carries a sequence: the results of its items and the saved position stay
until they are needed.
-/

namespace PegGen

namespace Js

variable {τ : Type} {p : Program}

/-! ## Correspondence -/

mutual

/-- The value of a tree. -/
def Value.ofTree : Tree → Value
  | .leaf taken => .text (Text.units taken.toList)
  | .node children => .array (ofTrees children)

/-- The values of several trees. -/
def Value.ofTrees : List Tree → List Value
  | [] => []
  | t :: ts => ofTree t :: ofTrees ts

end

theorem Value.ofTrees_append (ts ts' : List Tree) :
    ofTrees (ts ++ ts') = ofTrees ts ++ ofTrees ts' := by
  induction ts with
  | nil => rfl
  | cons t ts ih => rw [List.cons_append, ofTrees, ofTrees, ih, List.cons_append]

/-- The value of the result of an evaluation. -/
def Value.ofResult : Option Tree → Value
  | some t => .ofTree t
  | none => .failed

/-- No value of a parse is the mark of a failure. -/
theorem Value.isFailed_ofTree (t : Tree) : (ofTree t).isFailed = false := by
  cases t with
  | leaf taken => rfl
  | node children => rfl

/-- The numbers are those of the constants for some expectations. -/
def Denote (p : Program) (numbers : List Nat) (expected : List Expectation) : Prop :=
  numbers.map (p.constants.toList[·]?) = expected.map some

namespace Denote

variable {numbers : List Nat} {expected : List Expectation} {e : Expectation} {n : Nat}

/-- Different constants are for different expectations. -/
theorem mem_iff (h : Denote p numbers expected) (he : p.constants.indexOf? e = some n) :
    n ∈ numbers ↔ e ∈ expected := by
  have hn := OrderedSet.getElem?_of_indexOf? he
  constructor
  · intro hmem
    have hsome : some e ∈ expected.map some := by
      rw [← h, ← hn]
      exact List.mem_map_of_mem hmem
    simpa using hsome
  · intro hmem
    have hsome : some e ∈ numbers.map (p.constants.toList[·]?) := by
      rw [h]
      exact List.mem_map_of_mem hmem
    obtain ⟨n', hn', heq⟩ := List.mem_map.1 hsome
    obtain ⟨hlt, -⟩ := List.getElem?_eq_some_iff.1 hn
    rwa [← (List.getElem?_inj hlt p.constants.nodup).1 (hn.trans heq.symm)] at hn'

/-- One more failure is denoted by one more constant. -/
theorem append (h : Denote p numbers expected) (he : p.constants.indexOf? e = some n) :
    Denote p (numbers ++ [n]) (expected ++ [e]) := by
  rw [Denote, List.map_append, List.map_append, h, List.map_singleton,
    OrderedSet.getElem?_of_indexOf? he]
  rfl

end Denote

/-- A parse state without a tracer, and the memory of a parser that runs on the same input. -/
structure Corresponds (p : Program) (s : State τ) (m : Memory) : Prop where
  /-- There is no tracer. -/
  untraced : s.tracer = none
  /-- The input is ASCII. -/
  ascii : Text.IsAscii s.input
  /-- The parser runs on the same input. -/
  input : p.input = Text.units s.input
  /-- The position is one of the input. -/
  pos_le : s.pos ≤ s.input.length
  /-- The positions are the same. -/
  pos : m.pos = s.pos
  /-- The silencers are as many. -/
  silencers : m.silencers = s.silencers
  /-- The furthest failure is at the same position. -/
  furthestPos : m.furthestPos = s.furthest.pos
  /-- What was expected there is the same, in the same order. -/
  furthestConstants : Denote p m.furthestConstants s.furthest.expected.toList

namespace Corresponds

variable {s : State τ} {m : Memory}

theorem rest? (h : Corresponds p s m) : s.rest? = some (s.input.drop s.pos) :=
  Text.dropBytes?_of_isAscii h.ascii h.pos_le

theorem length_input (h : Corresponds p s m) : p.input.length = s.input.length := by
  rw [h.input, Text.length_units h.ascii]

/-- A slice of the input is that of the text that is left. -/
theorem slice (h : Corresponds p s m) (units : Nat) :
    p.slice m.pos units = Text.units ((s.input.drop s.pos).take units) := by
  rw [Program.slice, h.input, h.pos, Text.take_drop_units h.ascii]

/-- The states correspond at any position of the input. -/
theorem goTo (h : Corresponds p s m) {pos : Nat} (hpos : pos ≤ s.input.length) :
    Corresponds p (s.at pos) (m.at pos) :=
  { h with pos_le := hpos, pos := rfl }

/-- Silencers are counted on both sides. -/
theorem silence (h : Corresponds p s m) : Corresponds p s.silence m.silence :=
  { h with
    silencers := by
      show m.silencers + 1 = ((s.silencers + 1 : Nat) : Int)
      rw [h.silencers]
      rfl }

theorem unsilence (h : Corresponds p s m) (hpos : 0 < s.silencers) :
    Corresponds p s.unsilence m.unsilence :=
  { h with
    silencers := by
      show m.silencers - 1 = ((s.silencers - 1 : Nat) : Int)
      rw [h.silencers]
      omega }

/-- A failure that is taken note of in both. -/
theorem record (h : Corresponds p s m) {e : Expectation} {n : Nat}
    (he : p.constants.indexOf? e = some n) :
    Corresponds p { s with furthest := s.furthest.record s.pos e } (m.fail n) := by
  rw [Furthest.record, Memory.fail, h.pos, h.furthestPos]
  by_cases hnearer : s.pos < s.furthest.pos
  · rw [if_pos hnearer, if_pos hnearer]
    exact h
  rw [if_neg hnearer, if_neg hnearer]
  by_cases hfurther : s.furthest.pos < s.pos
  · rw [if_pos hfurther, if_pos hfurther]
    refine { h with pos := rfl, furthestPos := rfl, furthestConstants := ?_ }
    have hnone : Denote p [] [] := rfl
    exact hnone.append he
  · rw [if_neg hfurther, if_neg hfurther]
    refine { h with pos := rfl, furthestPos := ?_, furthestConstants := ?_ }
    · exact Nat.le_antisymm (Nat.not_lt.1 hfurther) (Nat.not_lt.1 hnearer)
    · show Denote p
        (if n ∈ m.furthestConstants then m.furthestConstants else m.furthestConstants ++ [n])
        (s.furthest.expected.insert e).toList
      rw [OrderedSet.toList_insert]
      by_cases hmem : e ∈ s.furthest.expected.toList
      · rw [if_pos hmem, if_pos ((h.furthestConstants.mem_iff he).2 hmem)]
        exact h.furthestConstants
      · rw [if_neg hmem, if_neg fun hn => hmem ((h.furthestConstants.mem_iff he).1 hn)]
        exact h.furthestConstants.append he

end Corresponds

/-! ## Agreement -/

/-- A call has ended as an evaluation that began at `start`, or both have run out of fuel. -/
def Agrees (p : Program) (start : Nat) (r : Except Halt (Option Tree) × State τ)
    (x : Except Crash (Value × Memory)) : Prop :=
  (∃ s, r = (.error .outOfFuel, s) ∧ x = .error .outOfFuel) ∨
    ∃ result s m, r = (.ok result, s) ∧ x = .ok (.ofResult result, m) ∧ Corresponds p s m ∧
      (result = none → s.pos = start)

/-- Code that began with the frame `f` has ended with `f'` as an evaluation that began at `start`.
Its value is in the target, and the registers below `n` keep what they hold. -/
structure Ended (p : Program) (start target n : Nat) (f : Frame) (result : Option Tree)
    (s : State τ) (f' : Frame) : Prop where
  corresponds : Corresponds p s f'.memory
  pos : result = none → s.pos = start
  value : f'.registers[target]? = some (.ofResult result)
  length : f'.registers.length = f.registers.length
  keeps : ∀ k < n, k ≠ target → f'.registers[k]? = f.registers[k]?

/-- Code has ended as an evaluation, or both have run out of fuel. -/
def CodeAgrees (p : Program) (start target n : Nat) (f : Frame)
    (r : Except Halt (Option Tree) × State τ) (x : Except Crash Frame) : Prop :=
  (∃ s, r = (.error .outOfFuel, s) ∧ x = .error .outOfFuel) ∨
    ∃ result s f', r = (.ok result, s) ∧ x = .ok f' ∧ Ended p start target n f result s f'

variable {s : State τ} {f : Frame} {start target n : Nat}

/-- Code that puts the result in its target as its last act. -/
theorem Ended.ofWrite {m : Memory} {result : Option Tree} (hs : Corresponds p s m)
    (hpos : result = none → s.pos = start) (htarget : target < f.registers.length) :
    Ended p start target n f result s ⟨f.registers.set target (.ofResult result), m⟩ where
  corresponds := hs
  pos := hpos
  value := List.getElem?_set_self htarget
  length := List.length_set
  keeps _ _ hk := List.getElem?_set_ne hk.symm

/-- A value in the target ends the code. -/
theorem Ended.ofValue {m : Memory} {value : Tree} (hs : Corresponds p s m)
    (htarget : target < f.registers.length) :
    Ended p start target n f (some value) s ⟨f.registers.set target (.ofTree value), m⟩ :=
  .ofWrite hs (fun h => absurd h (Option.some_ne_none value)) htarget

/-- What code keeps, it keeps for code before it that keeps the same registers. -/
theorem Ended.trans {f₁ f₂ : Frame} {result : Option Tree} {n' : Nat}
    (h : Ended p start target n' f₁ result s f₂) (hle : n ≤ n')
    (hlength : f₁.registers.length = f.registers.length)
    (hkeeps : ∀ k < n, k ≠ target → f₁.registers[k]? = f.registers[k]?) :
    Ended p start target n f result s f₂ where
  corresponds := h.corresponds
  pos := h.pos
  value := h.value
  length := h.length.trans hlength
  keeps k hk hne := (h.keeps k (Nat.lt_of_lt_of_le hk hle) hne).trans (hkeeps k hk hne)

/-- Code that agrees may be followed by code that agrees from where it has come to. -/
theorem CodeAgrees.trans {f₁ : Frame} {n' : Nat} {r : Except Halt (Option Tree) × State τ}
    {x : Except Crash Frame} (h : CodeAgrees p start target n' f₁ r x) (hle : n ≤ n')
    (hlength : f₁.registers.length = f.registers.length)
    (hkeeps : ∀ k < n, k ≠ target → f₁.registers[k]? = f.registers[k]?) :
    CodeAgrees p start target n f r x := by
  rcases h with h | ⟨result, s, f₂, hr, hx, hended⟩
  · exact .inl h
  · exact .inr ⟨result, s, f₂, hr, hx, hended.trans hle hlength hkeeps⟩

end Js

end PegGen
