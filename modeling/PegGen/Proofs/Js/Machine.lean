import PegGen.Proofs.Js.Mentions
import PegGen.Proofs.Js.StringLiteral

/-!
# Running rule functions

What the statements of a rule function do when the generated parser runs.  A program is loaded from
the operations that write its functions (`Program.load?`), and runs the statements that are read
from them.  A string literal is what a reader of JavaScript takes it for, and a program with a
literal that denotes nothing is not loaded at all.  A rule function is known by the name of its
rule, which may be any text, and the constants are known by their numbers.

A running parser has a memory, which all rule functions share: the position, the count of silencers,
and the furthest position of a failure with the constants that were expected there.  A rule function
also has registers of its own.  Constants are compared by their numbers, as every constant is an
object of its own.

Texts are lists of UTF-16 units.  A text may hold one half of a character without the other, so case
conversion works on the stretches between such halves.

A rule function that calls itself may do so for ever, so a call takes fuel, one unit per call in
progress.  A run is stuck when it does what is not described here: it uses a register that is not
declared, goes to a position that is no number, takes a constant for a class that is none, calls a
function that does not exist, or turns to a tracer.
-/

namespace PegGen.Js

/-! ## Texts -/

/-- The unit is the first half of a character. -/
def isHighHalf (u : Nat) : Bool :=
  0xD800 ≤ u && u ≤ 0xDBFF

/-- The unit is the second half of a character. -/
def isLowHalf (u : Nat) : Bool :=
  0xDC00 ≤ u && u ≤ 0xDFFF

/-- The character of two halves. -/
def joinHalves (high low : Nat) : Char :=
  Char.ofNat (0x10000 + (high - 0xD800) * 0x400 + (low - 0xDC00))

/-- Convert every stretch of characters of a text, where `stretch` is the part of the current one
that was read already.  A half without its other half stays. -/
def convertStretches (convert : List Char → List Char) (stretch : List Char) : List Nat → List Nat
  | [] => Text.units (convert stretch)
  | [u] =>
      if isHighHalf u || isLowHalf u then Text.units (convert stretch) ++ [u]
      else Text.units (convert (stretch ++ [Char.ofNat u]))
  | u :: v :: us =>
      -- the two halves of a character are read together
      if isHighHalf u && isLowHalf v then
        convertStretches convert (stretch ++ [joinHalves u v]) us
      else if isHighHalf u || isLowHalf u then
        Text.units (convert stretch) ++ u :: convertStretches convert [] (v :: us)
      else convertStretches convert (stretch ++ [Char.ofNat u]) (v :: us)

def toLowerCase (us : List Nat) : List Nat :=
  convertStretches Text.lower [] us

def toUpperCase (us : List Nat) : List Nat :=
  convertStretches (·.flatMap Text.upperChar) [] us

/-- A text does not come after another.  Texts are compared unit by unit. -/
def unitsLe : List Nat → List Nat → Bool
  | [], _ => true
  | _ :: _, [] => false
  | u :: us, v :: vs => u < v || (u = v && unitsLe us vs)

/-- A part of a class has a text. -/
def partHas (us : List Nat) : ClassPart → Bool
  | .char c => Text.charUnits c = us
  | .range lo hi => unitsLe (Text.charUnits lo) us && unitsLe us (Text.charUnits hi)

/-- A class accepts a text, where the empty text is never accepted.  There is no answer for an
expectation that is not a class. -/
def matchesClass (us : List Nat) (e : Expectation) : Option Bool :=
  if us = [] then some false
  else
    match e with
    | .charClass k =>
        let candidates := if k.ignoreCase then [us, toLowerCase us, toUpperCase us] else [us]
        some ((k.parts.any fun part => candidates.any (partHas · part)) != k.inverted)
    | _ => none

/-! ## States -/

/-- What a register holds. -/
inductive Value where
  | undefined
  | failed
  | number (n : Nat)
  | text (units : List Nat)
  | array (items : List Value)
deriving Repr, Inhabited

def Value.isFailed : Value → Bool
  | .failed => true
  | _ => false

/-- What the rule functions share. -/
structure Memory where
  pos : Nat := 0
  silencers : Int := 0
  furthestPos : Nat := 0
  furthestConstants : List Nat := []
deriving DecidableEq, Repr, Inhabited

def Memory.at (pos : Nat) (m : Memory) : Memory :=
  { m with pos := pos }

def Memory.silence (m : Memory) : Memory :=
  { m with silencers := m.silencers + 1 }

def Memory.unsilence (m : Memory) : Memory :=
  { m with silencers := m.silencers - 1 }

/-- Take note of a failure. -/
def Memory.fail (constant : Nat) (m : Memory) : Memory :=
  if m.pos < m.furthestPos then m
  else
    let known := if m.furthestPos < m.pos then [] else m.furthestConstants
    { m with
      furthestPos := m.pos
      furthestConstants := if constant ∈ known then known else known ++ [constant] }

/-- Why a run does not end, or not well. -/
inductive Crash where
  | outOfFuel
  | stuck
deriving DecidableEq, Repr

/-- What the statements of a rule function work on. -/
structure Frame where
  registers : List Value
  memory : Memory
deriving Repr, Inhabited

namespace Frame

def read (f : Frame) (n : Nat) : Except Crash Value :=
  match f.registers[n]? with
  | some v => .ok v
  | none => .error .stuck

def write (f : Frame) (n : Nat) (v : Value) : Except Crash Frame :=
  if n < f.registers.length then .ok { f with registers := f.registers.set n v }
  else .error .stuck

def goTo (f : Frame) : Value → Except Crash Frame
  | .number n => .ok { f with memory := f.memory.at n }
  | _ => .error .stuck

end Frame

/-! ## Programs -/

/-- A parser that runs on an input. -/
structure Program where
  input : List Nat
  /-- The expectations that are declared as constants, in the order of their numbers. -/
  constants : OrderedSet Expectation
  /-- The rule functions, in the order they are declared. -/
  functions : List Routine

namespace Program

/-- A number of units of the input from a position on, or fewer at its end. -/
def slice (p : Program) (pos units : Nat) : List Nat :=
  (p.input.drop pos).take units

/-- The function of a rule.  The last declaration counts. -/
def function? (p : Program) (rule : String) : Option Routine :=
  p.functions.reverse.find? (·.rule = rule)

/-- The program of functions that are written by some operations.  A string literal that denotes
nothing is an error before anything runs. -/
def load? (input : List Nat) (constants : OrderedSet Expectation) (code : List (List Code.Op)) :
    Option Program := do
  let functions ← code.mapM Routine.read?
  if functions.all fun f => f.literals.all fun literal => (denoted? (quote literal)).isSome then
    some ⟨input, constants, functions⟩
  else none

end Program

section Exec

variable (p : Program) (call : String → Memory → Except Crash (Value × Memory))

/-- The value of an expression, and the memory after it. -/
def Expr.run (f : Frame) : Expr → Except Crash (Value × Memory)
  | .position => .ok (.number f.memory.pos, f.memory)
  | .positionPlus units => .ok (.number (f.memory.pos + units), f.memory)
  | .register n => return (← f.read n, f.memory)
  | .failure => .ok (.failed, f.memory)
  | .quoted literal =>
      match denoted? (quote literal) with
      | some units => .ok (.text units, f.memory)
      | none => .error .stuck
  | .slice units => .ok (.text (p.slice f.memory.pos units), f.memory)
  | .char => .ok (.text (p.slice f.memory.pos 1), f.memory)
  | .array registers => return (.array (← registers.mapM f.read), f.memory)
  | .invoke rule => call rule f.memory

def Test.holds (f : Frame) : Test → Except Crash Bool
  | .sliceIs units literal =>
      match denoted? (quote literal) with
      | some text => .ok (p.slice f.memory.pos units = text)
      | none => .error .stuck
  | .lowerSliceIs units literal =>
      match denoted? (quote literal) with
      | some text => .ok (toLowerCase (p.slice f.memory.pos units) = text)
      | none => .error .stuck
  | .charIn constant =>
      match p.constants.toList[constant]?.bind (matchesClass (p.slice f.memory.pos 1)) with
      | some b => .ok b
      | none => .error .stuck
  | .inputLeft => .ok (f.memory.pos < p.input.length)
  | .failed n => return (← f.read n).isFailed
  | .succeeded n => return !(← f.read n).isFailed
  | .unsilenced => .ok (f.memory.silencers = 0)
  | .tracing => .error .stuck

def Target.assign (f : Frame) (v : Value) : Target → Except Crash Frame
  | .register n => f.write n v
  | .position => f.goTo v

namespace Stmt

mutual

def exec : Stmt → Frame → Except Crash Frame
  | .blank, f => .ok f
  | .assign target value, f => do
      let (v, m) ← value.run p call f
      target.assign { f with memory := m } v
  | .advance, f => .ok { f with memory := f.memory.at (f.memory.pos + 1) }
  | .silence, f => .ok { f with memory := f.memory.silence }
  | .unsilence, f => .ok { f with memory := f.memory.unsilence }
  | .fail constant, f => .ok { f with memory := f.memory.fail constant }
  | .start, _ | .trace .., _ => .error .stuck
  | .branch test yes no, f => do
      if ← test.holds p f then execAll yes f else execAll no f

def execAll : List Stmt → Frame → Except Crash Frame
  | [], f => .ok f
  | stmt :: stmts, f => do execAll stmts (← exec stmt f)

end

end Stmt

end Exec

/-- Call the function of a rule.  It has registers of its own, which are declared without a
value. -/
def Program.call (p : Program) : Nat → String → Memory → Except Crash (Value × Memory)
  | 0, _, _ => .error .outOfFuel
  | fuel + 1, rule, m =>
      match p.function? rule with
      | none => .error .stuck
      | some fn =>
          if fn.declared = List.range fn.declared.length then do
            let f ← Stmt.execAll p (p.call fuel) fn.body
              ⟨fn.declared.map fun _ => .undefined, m⟩
            return (← f.read fn.result, f.memory)
          else .error .stuck

/-! ## Runs -/

namespace Frame

/-- A register that exists is read. -/
theorem read_of_getElem? {f : Frame} {n : Nat} {v : Value} (h : f.registers[n]? = some v) :
    f.read n = .ok v := by
  rw [read, h]

/-- A register that exists is written, and nothing else. -/
theorem write_of_lt {f : Frame} {n : Nat} (h : n < f.registers.length) (v : Value) :
    f.write n v = .ok { f with registers := f.registers.set n v } :=
  if_pos h

/-- Registers with values are read one after the other. -/
theorem mapM_read {f : Frame} {registers : List Nat} {values : List Value}
    (h : registers.map (f.registers[·]?) = values.map some) :
    registers.mapM f.read = .ok values := by
  induction registers generalizing values with
  | nil =>
      cases values with
      | nil => rfl
      | cons v values => cases h
  | cons n registers ih =>
      cases values with
      | nil => cases h
      | cons v values =>
          obtain ⟨hn, hregisters⟩ := List.cons.inj h
          rw [List.mapM_cons, read_of_getElem? hn, ih hregisters]
          rfl

end Frame

namespace Test

variable {p : Program} {f : Frame} {n : Nat} {v : Value}

theorem holds_failed (h : f.registers[n]? = some v) :
    (failed n).holds p f = .ok v.isFailed := by
  rw [holds, Frame.read_of_getElem? h]
  rfl

theorem holds_succeeded (h : f.registers[n]? = some v) :
    (succeeded n).holds p f = .ok !v.isFailed := by
  rw [holds, Frame.read_of_getElem? h]
  rfl

end Test

namespace Stmt

variable {p : Program} {call : String → Memory → Except Crash (Value × Memory)} {f : Frame}

/-- Statements are run one after the other. -/
theorem execAll_cons (stmt : Stmt) (stmts : List Stmt) :
    execAll p call (stmt :: stmts) f = exec p call stmt f >>= execAll p call stmts := by
  rw [execAll]

/-- A run is over where a second one may begin. -/
theorem execAll_append (stmts stmts' : List Stmt) :
    execAll p call (stmts ++ stmts') f = execAll p call stmts f >>= execAll p call stmts' := by
  induction stmts generalizing f with
  | nil => rfl
  | cons stmt stmts ih =>
      rw [List.cons_append, execAll_cons, execAll_cons]
      cases exec p call stmt f with
      | error crash => rfl
      | ok f' => exact ih

theorem execAll_singleton (stmt : Stmt) : execAll p call [stmt] f = exec p call stmt f := by
  rw [execAll_cons]
  cases exec p call stmt f with
  | error crash => rfl
  | ok f' => rfl

/-- A value is assigned after it was computed, which may have changed the memory. -/
theorem exec_assign {value : Expr} {v : Value} {m : Memory} (h : value.run p call f = .ok (v, m))
    (target : Target) :
    exec p call (.assign target value) f = target.assign { f with memory := m } v := by
  rw [exec, h]
  rfl

theorem exec_assign_register {value : Expr} {v : Value} {m : Memory}
    (h : value.run p call f = .ok (v, m)) {n : Nat} (hn : n < f.registers.length) :
    exec p call (.assign (.register n) value) f = .ok ⟨f.registers.set n v, m⟩ := by
  rw [exec_assign h]
  exact Frame.write_of_lt (f := ⟨f.registers, m⟩) hn v

/-- The condition of a branch changes nothing, and one of the two cases is run. -/
theorem exec_branch {test : Test} {b : Bool} (h : test.holds p f = .ok b) (yes no : List Stmt) :
    exec p call (.branch test yes no) f = execAll p call (if b then yes else no) f := by
  rw [exec, h]
  cases b with
  | false => rfl
  | true => rfl

end Stmt

end PegGen.Js
