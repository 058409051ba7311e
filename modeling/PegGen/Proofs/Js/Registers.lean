import Mathlib.Algebra.GroupWithZero.Nat
import PegGen.Proofs.Js.Generation

/-!
# Registers serve one purpose

A sequence keeps where it began in a register, and the results of its items in others.  The code of
the items comes between, with sequences of its own.  No code may write over a register that a
sequence around it still needs.

`Stmt.usesAll k code` is what code does with the register `k`, in the order of the text, and
`Routine.uses` what a whole function does, which also returns a register and tells the tracer of it.
The code is what is read from the operations that are emitted.

`Expression.purposes` lists what an expression needs registers for, in the order in which they are
counted.  The code of an expression uses each register that it counts for one of these purposes.
Apart from them it uses only its target, and that it only fills (`Computes`, `disciplined`).
-/

namespace PegGen.Js

/-! ## Uses of a register -/

/-- What is done with a register. -/
inductive Use where
  /-- It is assigned the position. -/
  | save
  /-- It is assigned a value or the mark of a failure. -/
  | fill
  /-- It is assigned to the position, or to another register. -/
  | restore
  /-- It is put in an array. -/
  | collect
  /-- It is tested for the mark of a failure. -/
  | askFailure
  /-- It is tested for a value. -/
  | askValue
  /-- It is given to the tracer. -/
  | report
  /-- It is returned. -/
  | give
deriving DecidableEq, Repr

/-- The register is assigned. -/
def Use.writes : Use → Bool
  | .save | .fill => true
  | .restore | .collect | .askFailure | .askValue | .report | .give => false

/-- What a value does with a register. -/
def Expr.uses (k : Nat) : Expr → List Use
  | .register n => if n = k then [.restore] else []
  | .array registers => List.replicate (registers.count k) .collect
  | .position | .positionPlus _ | .failure | .quoted _ | .slice _ | .char | .invoke _ => []

/-- What a condition does with a register. -/
def Test.uses (k : Nat) : Test → List Use
  | .failed register => if register = k then [.askFailure] else []
  | .succeeded register => if register = k then [.askValue] else []
  | .sliceIs .. | .lowerSliceIs .. | .charIn _ | .inputLeft | .unsilenced | .tracing => []

/-- What it does to a register to assign a value. -/
def Target.uses (k : Nat) (value : Expr) : Target → List Use
  | .register n => if n = k then [if value = .position then .save else .fill] else []
  | .position => []

namespace Stmt

mutual

/-- What a statement does with a register, in the order of the text. -/
def uses (k : Nat) : Stmt → List Use
  | .assign target value => value.uses k ++ target.uses k value
  | .trace .matched _ => if 0 = k then [.report] else []
  | .branch test yes no => test.uses k ++ (usesAll k yes ++ usesAll k no)
  | .trace .enter _ | .trace .failed _ => []
  | .blank | .advance | .silence | .unsilence | .fail _ | .start => []

/-- What several statements do with a register, in the order of the text. -/
def usesAll (k : Nat) : List Stmt → List Use
  | [] => []
  | s :: stmts => uses k s ++ usesAll k stmts

end

@[simp] theorem usesAll_nil (k : Nat) : usesAll k [] = [] := rfl

@[simp] theorem usesAll_cons (k : Nat) (s : Stmt) (stmts : List Stmt) :
    usesAll k (s :: stmts) = uses k s ++ usesAll k stmts := rfl

@[simp] theorem usesAll_append (k : Nat) (stmts stmts' : List Stmt) :
    usesAll k (stmts ++ stmts') = usesAll k stmts ++ usesAll k stmts' := by
  induction stmts with
  | nil => rfl
  | cons s stmts ih => rw [List.cons_append, usesAll_cons, ih, usesAll_cons, List.append_assoc]

@[simp] theorem uses_reportFailure (k constant : Nat) : uses k (reportFailure constant) = [] := rfl

/-- What is assigned to a register is saved there if it is the position. -/
theorem uses_assign_register (k n : Nat) (value : Expr) :
    uses k (.assign (.register n) value) =
      value.uses k ++ if n = k then [if value = .position then .save else .fill] else [] := rfl

theorem uses_branch (k : Nat) (test : Test) (yes no : List Stmt) :
    uses k (.branch test yes no) = test.uses k ++ (usesAll k yes ++ usesAll k no) := by
  rw [uses]

end Stmt

/-- What a function does with a register, in the order of the text. -/
def Routine.uses (k : Nat) (r : Routine) : List Use :=
  Stmt.usesAll k r.body ++ if r.result = k then [.give] else []

/-! ## What registers are for -/

/-- What a register is for. -/
inductive Purpose where
  /-- Where a sequence of some items began. -/
  | start (items : List Expression)
  /-- The result of an item of a sequence. -/
  | result (item : Expression)

/-- A register is filled, if anything, and tested for the mark of a failure. -/
def OnlyFilled (uses : List Use) : Prop :=
  ∀ u ∈ uses, u = .fill ∨ u = .askFailure

/-- A register with these uses serves the purpose.  Where a sequence began is saved once, and then
only restored, by each item that fails.  The result of an item is filled, tested for a value, and
then only collected. -/
def Purpose.Served : Purpose → List Use → Prop
  | .start items, uses => uses = .save :: List.replicate items.length .restore
  | .result _, uses => ∃ filling, .fill ∈ filling ∧ OnlyFilled filling ∧
      uses = filling ++ [.askValue, .collect]

namespace Purpose.Served

variable {p : Purpose} {uses : List Use}

theorem ne_nil (h : p.Served uses) : uses ≠ [] := by
  cases p with
  | start items =>
      obtain rfl : uses = .save :: _ := h
      exact List.cons_ne_nil _ _
  | result item =>
      obtain ⟨filling, -, -, rfl⟩ := h
      simp

/-- After the position was saved, or a result was found to be a value, the register is not written
any more. -/
theorem settled (h : p.Served uses) :
    uses.Pairwise fun u v => u = .save ∨ u = .askValue → v.writes = false := by
  cases p with
  | start items =>
      obtain rfl : uses = .save :: List.replicate items.length .restore := h
      refine List.pairwise_cons.2 ⟨fun v hv _ => ?_, ?_⟩
      · rw [List.eq_of_mem_replicate hv]
        rfl
      · simp
  | result item =>
      obtain ⟨filling, -, honly, rfl⟩ := h
      have hfilling : ∀ u ∈ filling, ¬ (u = .save ∨ u = .askValue) := by
        intro u hu
        rcases honly u hu with rfl | rfl <;> simp
      refine List.pairwise_append.2 ⟨?_, by simp [Use.writes], fun u hu v _ hsettled => ?_⟩
      · exact List.pairwise_of_forall_mem_list fun u hu v _ hsettled =>
          absurd hsettled (hfilling u hu)
      · exact absurd hsettled (hfilling u hu)

end Purpose.Served

end PegGen.Js

namespace PegGen

namespace Expression

open Js (Purpose)

/-- How many registers a node needs besides those of its parts: a sequence that is not empty needs
one for where it began and one for each item. -/
def ownRegisters : Expression → Nat
  | .seq (e :: es) => 1 + (e :: es).length
  | _ => 0

mutual

/-- What an expression needs registers for, in the order in which they are counted. -/
def purposes : Expression → List Purpose
  | .seq [] => []
  | .seq (e :: es) => .start (e :: es) :: .result e :: (purposes e ++ purposesOfItems es)
  | .choice items => purposesAll items
  | .named _ body => purposes body
  | .literal .. | .charClass _ | .any | .ref .. => []

/-- What the items of a sequence need registers for. -/
def purposesOfItems : List Expression → List Purpose
  | [] => []
  | e :: es => .result e :: (purposes e ++ purposesOfItems es)

/-- What the alternatives of a choice need registers for. -/
def purposesAll : List Expression → List Purpose
  | [] => []
  | e :: es => purposes e ++ purposesAll es

end

@[simp] theorem purposes_seq_cons (e : Expression) (es : List Expression) :
    (seq (e :: es)).purposes = .start (e :: es) :: purposesOfItems (e :: es) := rfl

theorem length_purposesOfItems {items : List Expression}
    (h : ∀ e ∈ items, e.purposes.length = (e.nodes.map ownRegisters).sum) :
    (purposesOfItems items).length =
      items.length + ((nodesAll items).map ownRegisters).sum := by
  induction items with
  | nil => rfl
  | cons e es ih =>
      have hes := ih fun e he => h e (.tail _ he)
      simp only [purposesOfItems, nodesAll, List.length_cons, List.length_append, List.map_append,
        List.sum_append, h e (.head _), hes]
      omega

theorem length_purposesAll {items : List Expression}
    (h : ∀ e ∈ items, e.purposes.length = (e.nodes.map ownRegisters).sum) :
    (purposesAll items).length = ((nodesAll items).map ownRegisters).sum := by
  induction items with
  | nil => rfl
  | cons e es ih =>
      have hes := ih fun e he => h e (.tail _ he)
      simp only [purposesAll, nodesAll, List.length_append, List.map_append, List.sum_append,
        h e (.head _), hes]

/-- There is a purpose for each register that a node needs. -/
theorem length_purposes (e : Expression) :
    e.purposes.length = (e.nodes.map ownRegisters).sum := by
  induction e using induct with
  | literal value ignoreCase => rfl
  | charClass k => rfl
  | any => rfl
  | ref name location => rfl
  | seq items ih =>
      cases items with
      | nil => rfl
      | cons e es =>
          simp only [purposes_seq_cons, nodes, List.length_cons, length_purposesOfItems ih,
            List.map_cons, List.sum_cons, ownRegisters]
          omega
  | choice items ih =>
      simp only [purposes, nodes, length_purposesAll ih, List.map_cons, List.sum_cons,
        ownRegisters, Nat.zero_add]
  | named name body ih =>
      simp only [purposes, nodes, ih, List.map_cons, List.sum_cons, ownRegisters, Nat.zero_add]

end Expression

namespace Js

open Stmt

/-! ## Code and the purposes of its registers -/

/-- The registers from `n` on serve the purposes, one after the other. -/
def Serves (n : Nat) (purposes : List Purpose) (code : List Stmt) : Prop :=
  ∀ i (p : Purpose), purposes[i]? = some p → p.Served (usesAll (n + i) code)

namespace Serves

variable {n : Nat} {p : Purpose} {purposes purposes' : List Purpose} {code code' : List Stmt}

theorem nil (n : Nat) (code : List Stmt) : Serves n [] code :=
  nofun

theorem cons (h : p.Served (usesAll n code)) (h' : Serves (n + 1) purposes code) :
    Serves n (p :: purposes) code := by
  intro i q hq
  cases i with
  | zero =>
      cases hq
      exact h
  | succ i =>
      have hserved := h' i q hq
      rwa [Nat.add_assoc, Nat.add_comm 1] at hserved

theorem append (h : Serves n purposes code) (h' : Serves (n + purposes.length) purposes' code) :
    Serves n (purposes ++ purposes') code := by
  intro i q hq
  rcases Nat.lt_or_ge i purposes.length with hi | hi
  · rw [List.getElem?_append_left hi] at hq
    exact h i q hq
  · rw [List.getElem?_append_right hi] at hq
    have hserved := h' _ q hq
    rwa [Nat.add_assoc, Nat.add_sub_cancel' hi] at hserved

theorem exists_served (h : Serves n purposes code) {k : Nat} (hle : n ≤ k)
    (hlt : k < n + purposes.length) : ∃ p : Purpose, p.Served (usesAll k code) := by
  obtain ⟨i, rfl⟩ := Nat.exists_eq_add_of_le hle
  exact ⟨_, h i _ (List.getElem?_eq_getElem (Nat.lt_of_add_lt_add_left hlt))⟩

/-- What other code does with the registers makes no difference. -/
theorem congr (h : Serves n purposes code)
    (heq : ∀ k, n ≤ k → k < n + purposes.length → usesAll k code' = usesAll k code) :
    Serves n purposes code' := by
  intro i q hq
  have hi := (List.getElem?_eq_some_iff.1 hq).1
  rw [heq (n + i) (Nat.le_add_right ..) (by omega)]
  exact h i q hq

end Serves

/-- The code fills a target, if it uses it, and uses the registers from `n` on for the purposes.  It
uses no other register. -/
structure Allocates (target n : Nat) (purposes : List Purpose) (code : List Stmt) : Prop where
  filled : OnlyFilled (usesAll target code)
  serves : Serves n purposes code
  others : ∀ k, k ≠ target → k < n ∨ n + purposes.length ≤ k → usesAll k code = []

namespace Allocates

variable {target n : Nat} {purposes purposes' : List Purpose} {code code' : List Stmt}

/-- Code that uses nothing but the target needs no other register. -/
theorem ofTarget (hfilled : OnlyFilled (usesAll target code))
    (hothers : ∀ k, k ≠ target → usesAll k code = []) (n : Nat) : Allocates target n [] code :=
  ⟨hfilled, .nil n code, fun k hk _ => hothers k hk⟩

theorem append (h : Allocates target n purposes code)
    (h' : Allocates target (n + purposes.length) purposes' code') (htarget : target < n) :
    Allocates target n (purposes ++ purposes') (code ++ code') where
  filled := by
    rw [usesAll_append]
    exact List.forall_mem_append.2 ⟨h.filled, h'.filled⟩
  serves := by
    refine .append (h.serves.congr fun k hk hk' => ?_) (h'.serves.congr fun k hk _ => ?_)
    · rw [usesAll_append, h'.others k (by omega) (.inl hk'), List.append_nil]
    · rw [usesAll_append, h.others k (by omega) (.inr hk), List.nil_append]
  others k hk hk' := by
    rw [List.length_append] at hk'
    rw [usesAll_append, h.others k hk (by omega), h'.others k hk (by omega), List.append_nil]

/-- A statement that uses no register changes nothing. -/
theorem quiet (h : Allocates target n purposes code) {s : Stmt} (hs : ∀ k, s.uses k = []) :
    Allocates target n purposes (s :: code) := by
  have huses : ∀ k, usesAll k (s :: code) = usesAll k code := by
    intro k
    rw [usesAll_cons, hs, List.nil_append]
  refine ⟨?_, h.serves.congr fun k _ _ => huses k, fun k hk hk' => ?_⟩
  · rw [huses]
    exact h.filled
  · rw [huses, h.others k hk hk']

/-- The code may be done only if the target has the mark of a failure. -/
theorem branch (h : Allocates target n purposes code) (htarget : target < n) :
    Allocates target n purposes [.branch (.failed target) code []] := by
  have huses : ∀ k, k ≠ target →
      usesAll k [.branch (.failed target) code []] = usesAll k code := by
    intro k hk
    simp [uses_branch, Test.uses, Ne.symm hk]
  refine ⟨?_, h.serves.congr fun k hk _ => huses k (by omega), fun k hk hk' => ?_⟩
  · have hself : usesAll target [.branch (.failed target) code []] =
        .askFailure :: usesAll target code := by
      simp [uses_branch, Test.uses]
    rw [hself]
    exact List.forall_mem_cons.2 ⟨.inr rfl, h.filled⟩
  · rw [huses k hk, h.others k hk hk']

end Allocates

/-- The code uses registers for the purposes, and it does fill its target. -/
structure Computes (target n : Nat) (purposes : List Purpose) (code : List Stmt) : Prop extends
    Allocates target n purposes code where
  fill : .fill ∈ usesAll target code

namespace Computes

variable {target n k : Nat} {purposes : List Purpose} {code : List Stmt}

/-- The registers that are used are the target and those with a purpose. -/
theorem used_iff (h : Computes target n purposes code) :
    usesAll k code ≠ [] ↔ k = target ∨ n ≤ k ∧ k < n + purposes.length := by
  constructor
  · intro hused
    by_cases hk : k = target
    · exact .inl hk
    · refine .inr (Classical.byContradiction fun hout => hused (h.others k hk ?_))
      omega
  · rintro (rfl | ⟨hle, hlt⟩)
    · exact List.ne_nil_of_mem h.fill
    · obtain ⟨p, hp⟩ := h.serves.exists_served hle hlt
      exact hp.ne_nil

/-- Another register than the target is not written after it was used to save the position, or was
found to have a value. -/
theorem settled (h : Computes target n purposes code) (hk : k ≠ target) :
    (usesAll k code).Pairwise fun u v => u = .save ∨ u = .askValue → v.writes = false := by
  by_cases hused : usesAll k code = []
  · simp [hused]
  · obtain ⟨hle, hlt⟩ := (h.used_iff.1 hused).resolve_left hk
    obtain ⟨p, hp⟩ := h.serves.exists_served hle hlt
    exact hp.settled

/-- A display name asks about the target once more. -/
theorem named (h : Computes target n purposes code) (htarget : target < n) (constant : Nat) :
    Computes target n purposes (.silence :: (code ++ [.unsilence,
      .branch (.failed target) [reportFailure constant] []])) := by
  have hreport : Allocates target (n + purposes.length) [] [reportFailure constant] :=
    .ofTarget (by simp [OnlyFilled]) (by simp) _
  have hasked := (hreport.branch (by omega)).quiet (s := .unsilence) fun _ => rfl
  have hall := h.toAllocates.append hasked htarget
  rw [List.append_nil] at hall
  refine ⟨hall.quiet fun _ => rfl, ?_⟩
  rw [usesAll_cons, usesAll_append]
  exact List.mem_append_right _ (List.mem_append_left _ h.fill)

end Computes

/-! ## Leaves -/

theorem usesAll_leafCode {test : Test} {value : Expr} {move : Stmt}
    (htest : ∀ k, test.uses k = []) (hvalue : ∀ k, value.uses k = []) (hne : value ≠ .position)
    (hmove : ∀ k, move.uses k = []) (target constant k : Nat) :
    usesAll k (leafCode target constant test value move) =
      if target = k then [.fill, .fill] else [] := by
  have hfailure : Expr.uses k .failure = [] := rfl
  by_cases hk : target = k
  · simp [leafCode, uses_branch, uses_assign_register, htest, hvalue, hmove, hfailure, hne, hk]
  · simp [leafCode, uses_branch, uses_assign_register, htest, hvalue, hmove, hfailure, hk]

theorem computes_leafCode {test : Test} {value : Expr} {move : Stmt}
    (htest : ∀ k, test.uses k = []) (hvalue : ∀ k, value.uses k = []) (hne : value ≠ .position)
    (hmove : ∀ k, move.uses k = []) (target constant n : Nat) :
    Computes target n [] (leafCode target constant test value move) := by
  have huses := usesAll_leafCode htest hvalue hne hmove target constant
  refine ⟨.ofTarget ?_ (fun k hk => ?_) n, ?_⟩
  · simp [huses, OnlyFilled]
  · rw [huses, if_neg (Ne.symm hk)]
  · simp [huses]

theorem computes_assign {value : Expr} (hvalue : ∀ k, value.uses k = []) (hne : value ≠ .position)
    (target n : Nat) : Computes target n [] [.assign (.register target) value] := by
  refine ⟨.ofTarget ?_ (fun k hk => ?_) n, ?_⟩
  · simp [uses_assign_register, hvalue, hne, OnlyFilled]
  · simp [uses_assign_register, hvalue, Ne.symm hk]
  · simp [uses_assign_register, hne]

/-! ## Sequences -/

/-- What a sequence has when it comes to its next item: a target, a register with where it began,
and the registers of the results so far.  They are different, and were counted before. -/
structure Held (target saved : Nat) (done : List Nat) (n : Nat) : Prop where
  nodup : (target :: saved :: done).Nodup
  lt : ∀ k ∈ target :: saved :: done, k < n

namespace Held

variable {target saved n : Nat} {done : List Nat}

theorem target_lt (h : Held target saved done n) : target < n :=
  h.lt target (.head _)

theorem saved_lt (h : Held target saved done n) : saved < n :=
  h.lt saved (.tail _ (.head _))

theorem done_lt (h : Held target saved done n) {k : Nat} (hk : k ∈ done) : k < n :=
  h.lt k (.tail _ (.tail _ hk))

theorem target_ne_saved (h : Held target saved done n) : target ≠ saved :=
  fun heq => (List.nodup_cons.1 h.nodup).1 (heq ▸ .head _)

theorem target_notMem (h : Held target saved done n) : target ∉ done :=
  fun hmem => (List.nodup_cons.1 h.nodup).1 (.tail _ hmem)

theorem saved_notMem (h : Held target saved done n) : saved ∉ done :=
  (List.nodup_cons.1 (List.nodup_cons.1 h.nodup).2).1

theorem done_nodup (h : Held target saved done n) : done.Nodup :=
  (List.nodup_cons.1 (List.nodup_cons.1 h.nodup).2).2

/-- The result of the next item is in a new register. -/
theorem next (h : Held target saved done n) {m : Nat} (hm : n < m) :
    Held target saved (done ++ [n]) m := by
  have hnew : ∀ k ∈ target :: saved :: done, k < m := fun k hk => Nat.lt_trans (h.lt k hk) hm
  constructor
  · rw [← List.cons_append, ← List.cons_append, List.nodup_append]
    refine ⟨h.nodup, List.nodup_singleton n, fun k hk k' hk' heq => ?_⟩
    rw [heq, List.mem_singleton.1 hk'] at hk
    exact Nat.lt_irrefl n (h.lt n hk)
  · rw [← List.cons_append, ← List.cons_append]
    exact List.forall_mem_append.2 ⟨hnew, List.forall_mem_singleton.2 hm⟩

end Held

/-- The code completes a sequence whose beginning is in `saved` and whose results so far are in
`done`.  It fills the target, and uses the registers from `n` on for the items that are left. -/
structure Completes (target saved : Nat) (done : List Nat) (n : Nat) (items : List Expression)
    (code : List Stmt) : Prop where
  fill : .fill ∈ usesAll target code
  filled : OnlyFilled (usesAll target code)
  restores : usesAll saved code = List.replicate items.length .restore
  collects : ∀ k ∈ done, usesAll k code = [.collect]
  serves : Serves n (Expression.purposesOfItems items) code
  others : ∀ k, k ≠ target → k ≠ saved → k ∉ done →
    k < n ∨ n + (Expression.purposesOfItems items).length ≤ k → usesAll k code = []

theorem uses_save (k n : Nat) : uses k (.assign (.register n) .position) =
    if n = k then [.save] else [] := rfl

theorem uses_collect (k target : Nat) (done : List Nat) :
    uses k (.assign (.register target) (.array done)) =
      List.replicate (done.count k) .collect ++ if target = k then [.fill] else [] := by
  simp [uses_assign_register, Expr.uses]

theorem usesAll_giveUp (k target saved : Nat) :
    usesAll k (giveUp target saved) =
      (if saved = k then [.restore] else []) ++ if target = k then [.fill] else [] := by
  simp [giveUp, uses, Expr.uses, Target.uses]

theorem usesAll_item (k target saved n : Nat) (first rest : List Stmt) :
    usesAll k (first ++ [.branch (.succeeded n) rest (giveUp target saved)]) =
      usesAll k first ++ ((if n = k then [.askValue] else []) ++
        (usesAll k rest ++ usesAll k (giveUp target saved))) := by
  simp [uses_branch, Test.uses]

namespace Completes

variable {target saved n : Nat} {done : List Nat}

/-- At the end the results are collected. -/
theorem nil (h : Held target saved done n) :
    Completes target saved done n [] [.assign (.register target) (.array done)] where
  fill := by simp [uses_collect]
  filled := by simp [uses_collect, List.count_eq_zero.2 h.target_notMem, OnlyFilled]
  restores := by simp [uses_collect, List.count_eq_zero.2 h.saved_notMem, h.target_ne_saved]
  collects k hk := by
    have hne : target ≠ k := fun heq => h.target_notMem (heq ▸ hk)
    simp [uses_collect, h.done_nodup.count, hk, hne]
  serves := .nil _ _
  others k hk _ hk' _ := by simp [uses_collect, List.count_eq_zero.2 hk', Ne.symm hk]

variable {e : Expression} {es : List Expression} {first rest : List Stmt}

/-- What a sequence has is used by the rest, and when the item fails. -/
theorem usesAll_held (hfirst : Computes n (n + 1) e.purposes first) {k : Nat} (hk : k < n) :
    usesAll k (first ++ [.branch (.succeeded n) rest (giveUp target saved)]) =
      usesAll k rest ++ usesAll k (giveUp target saved) := by
  rw [usesAll_item, hfirst.others k (Nat.ne_of_lt hk) (.inl (Nat.lt_succ_of_lt hk)),
    if_neg (Nat.ne_of_gt hk), List.nil_append, List.nil_append]

/-- A register that is counted from here on is used by the item and the rest. -/
theorem usesAll_new (h : Held target saved done n) {k : Nat} (hk : n ≤ k) :
    usesAll k (first ++ [.branch (.succeeded n) rest (giveUp target saved)]) =
      usesAll k first ++ ((if n = k then [.askValue] else []) ++ usesAll k rest) := by
  have htarget : target ≠ k := Nat.ne_of_lt (Nat.lt_of_lt_of_le h.target_lt hk)
  have hsaved : saved ≠ k := Nat.ne_of_lt (Nat.lt_of_lt_of_le h.saved_lt hk)
  rw [usesAll_item, usesAll_giveUp, if_neg hsaved, if_neg htarget, List.append_nil,
    List.append_nil]

theorem usesAll_target (h : Held target saved done n)
    (hfirst : Computes n (n + 1) e.purposes first) :
    usesAll target (first ++ [.branch (.succeeded n) rest (giveUp target saved)]) =
      usesAll target rest ++ [.fill] := by
  rw [usesAll_held hfirst h.target_lt, usesAll_giveUp, if_neg h.target_ne_saved.symm, if_pos rfl,
    List.nil_append]

/-- The code of an item comes first, and then the rest if the item has a value. -/
theorem cons (h : Held target saved done n) (hfirst : Computes n (n + 1) e.purposes first)
    (hrest : Completes target saved (done ++ [n]) (n + 1 + e.purposes.length) es rest) :
    Completes target saved done n (e :: es)
      (first ++ [.branch (.succeeded n) rest (giveUp target saved)]) where
  fill := by
    rw [usesAll_target h hfirst]
    exact List.mem_append_right _ (.head _)
  filled := by
    rw [usesAll_target h hfirst]
    exact List.forall_mem_append.2 ⟨hrest.filled, by simp⟩
  restores := by
    rw [usesAll_held hfirst h.saved_lt, usesAll_giveUp, hrest.restores, if_pos rfl,
      if_neg h.target_ne_saved, List.append_nil, List.length_cons, List.replicate_succ']
  collects k hk := by
    have hne : target ≠ k := fun heq => h.target_notMem (heq ▸ hk)
    have hne' : saved ≠ k := fun heq => h.saved_notMem (heq ▸ hk)
    rw [usesAll_held hfirst (h.done_lt hk), usesAll_giveUp,
      hrest.collects k (List.mem_append_left _ hk), if_neg hne, if_neg hne']
    rfl
  serves := by
    have htarget := h.target_lt
    have hsaved := h.saved_lt
    refine .cons ?_ (.append ?_ ?_)
    · refine ⟨usesAll n first, hfirst.fill, hfirst.filled, ?_⟩
      rw [usesAll_new h (Nat.le_refl n), if_pos rfl,
        hrest.collects n (List.mem_append_right _ (List.mem_singleton_self n))]
      rfl
    · refine hfirst.serves.congr fun k hk hk' => ?_
      have hdone : k ∉ done ++ [n] := fun hmem => Nat.lt_irrefl k ((h.next hk).done_lt hmem)
      rw [usesAll_new h (by omega), if_neg (by omega),
        hrest.others k (by omega) (by omega) hdone (.inl hk'), List.append_nil, List.append_nil]
    · refine hrest.serves.congr fun k hk _ => ?_
      rw [usesAll_new h (by omega), if_neg (by omega), hfirst.others k (by omega) (.inr hk)]
      rfl
  others k hk hk' hdone hout := by
    rw [Expression.purposesOfItems, List.length_cons, List.length_append] at hout
    have hne : k ≠ n := by omega
    have hrest' := hrest.others k hk hk' (by simp [hdone, hne]) (by omega)
    rcases hout with hlt | hle
    · rw [usesAll_held hfirst hlt, usesAll_giveUp, hrest', if_neg hk'.symm, if_neg hk.symm]
      rfl
    · rw [usesAll_new h (by omega), hrest', hfirst.others k (by omega) (.inr (by omega)),
        if_neg hne.symm]
      rfl

/-- A sequence that is not empty saves where it begins, and completes itself from there. -/
theorem computes {code : List Stmt} (h : Completes target n [] (n + 1) (e :: es) code)
    (htarget : target < n) :
    Computes target n (Expression.seq (e :: es)).purposes
      (.assign (.register n) .position :: code) := by
  have huses : ∀ k, k ≠ n →
      usesAll k (.assign (.register n) .position :: code) = usesAll k code := by
    intro k hk
    rw [usesAll_cons, uses_save, if_neg hk.symm, List.nil_append]
  have hne : target ≠ n := Nat.ne_of_lt htarget
  refine ⟨⟨?_, .cons ?_ (h.serves.congr fun k hk _ => huses k (by omega)), fun k hk hk' => ?_⟩, ?_⟩
  · rw [huses target hne]
    exact h.filled
  · show usesAll n _ = _
    rw [usesAll_cons, uses_save, if_pos rfl, h.restores]
    rfl
  · rw [Expression.purposes_seq_cons, List.length_cons] at hk'
    have hk'' : k ≠ n := by omega
    rw [huses k hk'', h.others k hk hk'' List.not_mem_nil (by omega)]
  · rw [huses target hne]
    exact h.fill

end Completes

/-! ## Expressions -/

/-- The code of the expression computes it into any target, with a register for each purpose. -/
def Disciplined (pool : OrderedSet Expectation) (e : Expression) : Prop :=
  ∀ ⦃target n n' code⦄, target < n → (expressionCode pool target e).run n = .ok (code, n') →
    n' = n + e.purposes.length ∧ Computes target n e.purposes code

section Expressions

variable {pool : OrderedSet Expectation}

theorem completes_itemsCode {items : List Expression} (h : ∀ e ∈ items, Disciplined pool e)
    {target saved n n' : Nat} {done : List Nat} {code : List Stmt}
    (hheld : Held target saved done n)
    (hcode : (itemsCode pool target saved done items).run n = .ok (code, n')) :
    n' = n + (Expression.purposesOfItems items).length ∧
      Completes target saved done n items code := by
  induction items generalizing done n code with
  | nil =>
      obtain ⟨rfl, rfl⟩ := itemsCode_nil_iff.1 hcode
      exact ⟨rfl, .nil hheld⟩
  | cons e es ih =>
      obtain ⟨first, m, rest, hfirst, hrest, rfl⟩ := itemsCode_cons_iff.1 hcode
      obtain ⟨rfl, hfirst'⟩ := h e (.head _) (Nat.lt_succ_self n) hfirst
      obtain ⟨rfl, hrest'⟩ := ih (fun e he => h e (.tail _ he)) (hheld.next (by omega)) hrest
      refine ⟨?_, .cons hheld hfirst' hrest'⟩
      rw [Expression.purposesOfItems, List.length_cons, List.length_append]
      omega

theorem allocates_alternativesCode {items : List Expression}
    (h : ∀ e ∈ items, Disciplined pool e) {target n n' : Nat} {code : List Stmt}
    (htarget : target < n)
    (hcode : (alternativesCode pool target items).run n = .ok (code, n')) :
    n' = n + (Expression.purposesAll items).length ∧
      Allocates target n (Expression.purposesAll items) code := by
  induction items generalizing n code with
  | nil =>
      obtain ⟨rfl, rfl⟩ := alternativesCode_nil_iff.1 hcode
      exact ⟨rfl, .ofTarget (by simp [OnlyFilled]) (fun _ _ => rfl) _⟩
  | cons e es ih =>
      obtain ⟨first, m, rest, hfirst, hrest, rfl⟩ := alternativesCode_cons_iff.1 hcode
      obtain ⟨rfl, hfirst'⟩ := h e (.head _) htarget hfirst
      obtain ⟨rfl, hrest'⟩ := ih (fun e he => h e (.tail _ he)) (by omega) hrest
      refine ⟨?_, (hfirst'.toAllocates.append hrest' htarget).branch htarget⟩
      rw [Expression.purposesAll, List.length_append]
      omega

/-- The code of every expression computes it, with a register for each purpose. -/
theorem disciplined (e : Expression) : Disciplined pool e := by
  intro target n n' code htarget hcode
  induction e using Expression.induct generalizing target n code n' with
  | literal value ignoreCase =>
      cases ignoreCase with
      | false =>
          obtain ⟨c, -, rfl, rfl⟩ := expressionCode_literal_iff.1 hcode
          exact ⟨rfl, computes_leafCode (fun _ => rfl) (fun _ => rfl) (by nofun) (fun _ => rfl) ..⟩
      | true =>
          obtain ⟨c, -, rfl, rfl⟩ := expressionCode_literalIgnoringCase_iff.1 hcode
          exact ⟨rfl, computes_leafCode (fun _ => rfl) (fun _ => rfl) (by nofun) (fun _ => rfl) ..⟩
  | charClass k =>
      obtain ⟨c, -, rfl, rfl⟩ := expressionCode_charClass_iff.1 hcode
      exact ⟨rfl, computes_leafCode (fun _ => rfl) (fun _ => rfl) (by nofun) (fun _ => rfl) ..⟩
  | any =>
      obtain ⟨c, -, rfl, rfl⟩ := expressionCode_any_iff.1 hcode
      exact ⟨rfl, computes_leafCode (fun _ => rfl) (fun _ => rfl) (by nofun) (fun _ => rfl) ..⟩
  | ref name location =>
      obtain ⟨rfl, rfl⟩ := expressionCode_ref_iff.1 hcode
      exact ⟨rfl, computes_assign (fun _ => rfl) (by nofun) ..⟩
  | seq items ih =>
      cases items with
      | nil =>
          obtain ⟨rfl, rfl⟩ := expressionCode_seq_nil_iff.1 hcode
          exact ⟨rfl, computes_assign (fun _ => rfl) (by nofun) ..⟩
      | cons e es =>
          obtain ⟨items, hitems, rfl⟩ := expressionCode_seq_cons_iff.1 hcode
          have hheld : Held target n [] (n + 1) :=
            ⟨by simp [Nat.ne_of_lt htarget], List.forall_mem_cons.2
              ⟨Nat.lt_succ_of_lt htarget, List.forall_mem_singleton.2 (Nat.lt_succ_self n)⟩⟩
          obtain ⟨rfl, hcompletes⟩ := completes_itemsCode ih hheld hitems
          refine ⟨?_, hcompletes.computes htarget⟩
          rw [Expression.purposes_seq_cons, List.length_cons]
          omega
  | choice items ih =>
      cases items with
      | nil =>
          obtain ⟨rfl, rfl⟩ := expressionCode_choice_nil_iff.1 hcode
          exact ⟨rfl, computes_assign (fun _ => rfl) (by nofun) ..⟩
      | cons e es =>
          obtain ⟨first, m, rest, hfirst, hrest, rfl⟩ := expressionCode_choice_cons_iff.1 hcode
          obtain ⟨rfl, hfirst'⟩ := ih e (.head _) htarget hfirst
          obtain ⟨rfl, hrest'⟩ :=
            allocates_alternativesCode (fun e he => ih e (.tail _ he)) (by omega) hrest
          refine ⟨?_, hfirst'.toAllocates.append hrest' htarget, ?_⟩
          · show _ = n + (e.purposes ++ Expression.purposesAll es).length
            rw [List.length_append, Nat.add_assoc]
          · rw [usesAll_append]
            exact List.mem_append_left _ hfirst'.fill
  | named name body ih =>
      obtain ⟨inner, c, hbody, -, rfl⟩ := expressionCode_named_iff.1 hcode
      obtain ⟨rfl, hbody'⟩ := ih htarget hbody
      exact ⟨rfl, hbody'.named htarget c⟩

/-- Tracing uses the result of the rule and no other register. -/
theorem usesAll_traceEnterCode (k : Nat) (rule : String) : usesAll k (traceEnterCode rule) = [] :=
  rfl

theorem usesAll_traceLeaveCode {k : Nat} (hk : k ≠ 0) (rule : String) :
    usesAll k (traceLeaveCode rule) = [] := by
  simp [traceLeaveCode, uses, Test.uses, hk.symm]

/-- The registers that are used in the function of a rule are those that are declared. -/
theorem uses_routineOf_iff {n k : Nat} {purposes : List Purpose} {code : List Stmt}
    (h : Computes 0 1 purposes code) (hn : n = 1 + purposes.length) (trace : Bool)
    (rule : String) :
    (routineOf trace rule n code).uses k ≠ [] ↔ k ∈ (routineOf trace rule n code).declared := by
  have hdeclared : k ∈ (routineOf trace rule n code).declared ↔ k < n := List.mem_range
  rw [hdeclared, Routine.uses]
  by_cases hk : k = 0
  · have hresult : (routineOf trace rule n code).result = k := hk.symm
    have hlt : k < n := by omega
    simp [hresult, hlt]
  · have hbody : usesAll k (routineOf trace rule n code).body = usesAll k code := by
      cases trace <;>
        simp [routineOf, usesAll_traceEnterCode, usesAll_traceLeaveCode hk]
    have hresult : (routineOf trace rule n code).result ≠ k := fun heq => hk heq.symm
    rw [hbody, if_neg hresult, List.append_nil, h.used_iff]
    omega

/-- The code that is emitted for an expression counts as many registers as its sequences need: one
for where a sequence begins, and one for each of its items.  Each of them serves one of these
purposes, and no other register is used but the target.  Once the position was saved in one of them,
or a result was found to be a value, it is not written any more.

The function that is emitted for a rule declares those registers that are used in it, be it in its
statements, in the calls of the tracer around them, or at the return. -/
theorem registers_disciplined (pool : OrderedSet Expectation) :
    (∀ (e : Expression) (target n n' : Nat) (ops : List Code.Op), target < n →
      (expressionOps pool target e).run n = .ok (ops, n') →
        n' = n + (e.nodes.map Expression.ownRegisters).sum ∧
        n' = n + e.purposes.length ∧
        ∃ code, Stmt.read? ops = some code ∧
          (∀ i (p : Purpose), e.purposes[i]? = some p → p.Served (usesAll (n + i) code)) ∧
          (∀ k, usesAll k code ≠ [] ↔ k = target ∨ n ≤ k ∧ k < n') ∧
          ∀ k, k ≠ target →
            (usesAll k code).Pairwise fun u v => u = .save ∨ u = .askValue → v.writes = false) ∧
    ∀ (r : Rule) (f : RuleFunction), RuleFunction.generate pool r = .ok f → ∀ trace,
      ∃ fn, Routine.read? (f.ops trace) = some fn ∧ fn.declared = List.range f.registers ∧
        (f.ops trace)[1]? = some (.line ("let " ++
          Text.joinWith ", " (fn.declared.map fun k => "s" ++ toString k) ++ ";")) ∧
        ∀ k, k ∈ fn.declared ↔ fn.uses k ≠ [] := by
  constructor
  · intro e target n n' ops htarget hops
    obtain ⟨code, hcode, rfl⟩ := run_expressionOps_iff.1 hops
    obtain ⟨rfl, hcomputes⟩ := disciplined e htarget hcode
    exact ⟨by rw [e.length_purposes], rfl, code, Stmt.read?_opsAll code, hcomputes.serves,
      fun k => hcomputes.used_iff, fun k hk => hcomputes.settled hk⟩
  · intro r f hf trace
    obtain ⟨code, hcode, hread⟩ := exists_read?_of_generate hf
    obtain ⟨hregisters, hcomputes⟩ := disciplined r.expression Nat.one_pos hcode
    exact ⟨_, hread trace, rfl, rfl, fun k => (uses_routineOf_iff hcomputes hregisters _ _).symm⟩

/-- Sequences in both items of a sequence, one of them under a display name, and an alternative that
shares the target. -/
def nested : Rule where
  name := "r"
  expression := .choice [
    .seq [.seq [.any, .ref "r" default], .named "pair" (.seq [.any, .any, .any])],
    .any]

/-- Registers 1 and 3 have where the outer and the first inner sequence began, and register 6 has
the result of the second inner one. -/
theorem registers_disciplined_nested :
    ∃ f, RuleFunction.generate (.ofList [.any, .other "pair"]) nested = .ok f ∧
      (∃ code, Stmt.read? f.body = some code ∧
        usesAll 1 code = [.save, .restore, .restore] ∧
        usesAll 3 code = [.save, .restore, .restore] ∧
        (usesAll 6 code).Pairwise (fun u v => u = .save ∨ u = .askValue → v.writes = false)) ∧
      ∃ fn, Routine.read? (f.ops true) = some fn ∧ fn.declared = List.range 11 ∧
        fn.uses 0 ≠ [] ∧ fn.uses 10 ≠ [] ∧ fn.uses 11 = [] := by
  have hpool : ∀ x ∈ nested.expression.expectations,
      x ∈ OrderedSet.ofList [.any, .other "pair"] := by decide
  obtain ⟨code, registers, hcode⟩ := exists_expressionCode hpool 0 1
  have hops := run_expressionOps_iff.2 ⟨code, hcode, rfl⟩
  have hf : RuleFunction.generate (.ofList [.any, .other "pair"]) nested =
      .ok ⟨"r", registers, opsAll code⟩ := generate_rule_iff.2 ⟨code, hcode, rfl, rfl⟩
  obtain ⟨hcount, -, code', hread, hserved, -, hsettled⟩ :=
    (registers_disciplined _).1 _ 0 1 registers _ Nat.one_pos hops
  obtain rfl : registers = 11 := hcount
  obtain ⟨fn, hfn, hdeclared, -, hused⟩ := (registers_disciplined _).2 nested _ hf true
  have hlast : fn.uses 11 = [] := by
    by_contra hne
    have hmem := (hused 11).2 hne
    rw [hdeclared] at hmem
    simp at hmem
  refine ⟨_, hf, ⟨code', hread, hserved 0 _ rfl, hserved 2 _ rfl, hsettled 6 (by simp)⟩,
    fn, hfn, hdeclared, (hused 0).1 ?_, (hused 10).1 ?_, hlast⟩ <;> simp [hdeclared]

end Expressions

end Js

end PegGen
