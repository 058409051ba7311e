import Mathlib.Data.Finset.Prod
import Mathlib.Data.List.Infix
import Mathlib.Order.Monotone.Basic
import PegGen.Proofs.Grammar.Locality
import PegGen.Proofs.Grammar.Observers
import PegGen.Proofs.Grammar.ProxyMeaning

/-!
# Fuel for a parse

Evaluation takes fuel, one unit per rule invocation in progress.  What an invocation does depends on
the rule and on the offset only, so there are as many different invocations as there are pairs of a
rule and a boundary of the input, and each of them needs some amount of fuel or never ends.

There are no gaps between these amounts.  If what ends with one unit more has ended before, then
another unit is of no use either, since it is handed on to the invocations inside
(`Grammar.ended_eq_succ`).  So no invocation that ends needs more fuel than there are invocations,
which is what a parse has (`Grammar.endsWith_iff_fuelFor`).

A tracer may end a parse that would not end by itself.  That is not covered.
-/

namespace PegGen

open Text ParseT

variable {τ τ' α : Type}

/-- The run did not run out of fuel. -/
def hasEnded : Except Halt α × State τ → Bool
  | (.error .outOfFuel, _) => false
  | _ => true

theorem hasEnded_iff {r : Except Halt α × State τ} :
    hasEnded r = true ↔ r.1 ≠ .error .outOfFuel := by
  obtain ⟨result | a, s⟩ := r
  · cases result <;> simp [hasEnded]
  · simp [hasEnded]

theorem EndAligned.hasEnded {p p' text : List Char} {r : Except Halt α × State τ}
    {r' : Except Halt α × State τ'} [Tracer τ Tree] [Tracer τ' Tree]
    (h : EndAligned p p' text r r') (hr : hasEnded r) : PegGen.hasEnded r' := by
  cases h with
  | value => rfl
  | outOfFuel => cases hr

namespace Grammar

variable [Tracer τ Tree] [Tracer τ' Tree]

/-! ## Invocations -/

/-- The invocation of the rule at the offset ends with this fuel. -/
def endsBy (g : Grammar) (input : String) (fuel : Nat) (invocation : String × Nat) : Bool :=
  hasEnded (runFrom ((State.init input none).at invocation.2)
    (g.evalRule fuel invocation.1 : ParseM (Recorder Tree) _))

/-- The boundaries of the input. -/
def boundaries (input : String) : List Nat :=
  input.toList.inits.map byteLength

theorem mem_boundaries_iff {input : String} {n : Nat} :
    n ∈ boundaries input ↔ IsBoundary n input.toList := by
  rw [boundaries, List.mem_map]
  constructor
  · rintro ⟨before, hbefore, hn⟩
    obtain ⟨rest, hinput⟩ := (List.mem_inits _ _).1 hbefore
    exact ⟨before, rest, hinput.symm, hn⟩
  · rintro ⟨before, rest, hinput, hn⟩
    exact ⟨before, (List.mem_inits _ _).2 ⟨rest, hinput.symm⟩, hn⟩

/-- The invocations of a rule at a boundary. -/
def invocations (g : Grammar) (input : String) : Finset (String × Nat) :=
  g.ruleNames.toFinset ×ˢ (boundaries input).toFinset

theorem card_invocations_lt (g : Grammar) (input : String) :
    (g.invocations input).card < g.fuelFor input := by
  have hnames := g.ruleNames.toFinset_card_le
  have hboundaries := (boundaries input).toFinset_card_le
  rw [ruleNames, List.length_map] at hnames
  rw [boundaries, List.length_map, List.length_inits] at hboundaries
  rw [invocations, Finset.card_product, fuelFor, Nat.lt_succ_iff]
  exact Nat.mul_le_mul hnames hboundaries

/-- The invocations that end with this fuel. -/
def ended (g : Grammar) (input : String) (fuel : Nat) : Finset (String × Nat) :=
  (g.invocations input).filter fun invocation => g.endsBy input fuel invocation

variable {g : Grammar} {input : String} {fuel fuel' : Nat} {name : String}

theorem mem_ended_iff {n : Nat} : (name, n) ∈ g.ended input fuel ↔
    (name ∈ g.ruleNames ∧ IsBoundary n input.toList) ∧ g.endsBy input fuel (name, n) := by
  rw [ended, Finset.mem_filter, invocations, Finset.mem_product, List.mem_toFinset,
    List.mem_toFinset, mem_boundaries_iff]

theorem unhindered_init (input : String) :
    (State.init input (none : Option τ)).Unhindered input.toList :=
  ⟨⟨rfl, State.cacheExact_init input none⟩, nofun⟩

/-- A state over the input is aligned with the first one that was moved to its offset. -/
theorem aligned_init {s : State τ} (hs : s.Unhindered input.toList)
    (hpos : IsBoundary s.pos input.toList) :
    Aligned [] [] input.toList s.pos s
      ((State.init input none).at s.pos : State (Recorder Tree)) where
  left := hs
  right := (unhindered_init input).goTo s.pos
  isBoundary := hpos
  pos_left := by simp
  pos_right := by simp [State.at]

/-- Whether an invocation ends depends on the rule and the offset only. -/
theorem hasEnded_evalRule {s : State τ} (hs : s.Unhindered input.toList)
    (hpos : IsBoundary s.pos input.toList) (fuel : Nat) (name : String) :
    hasEnded (runFrom s (g.evalRule fuel name)) = g.endsBy input fuel (name, s.pos) := by
  have h := aligned_init hs hpos
  rw [Bool.eq_iff_iff]
  exact ⟨(g.abreast_evalRule _ _ _ le_rfl name _ _ _ h).hasEnded,
    (g.abreast_evalRule _ _ _ le_rfl name _ _ _ h.symm).hasEnded⟩

/-- More fuel is never worse. -/
theorem ended_subset (g : Grammar) (input : String) (h : fuel ≤ fuel') :
    g.ended input fuel ⊆ g.ended input fuel' := by
  rintro ⟨name, n⟩ hmem
  obtain ⟨⟨hname, hn⟩, hends⟩ := mem_ended_iff.1 hmem
  have haligned := aligned_init ((unhindered_init (τ := Recorder Tree) input).goTo n) hn
  exact mem_ended_iff.2 ⟨⟨hname, hn⟩,
    (g.abreast_evalRule [] [] input.toList h name _ _ _ haligned).hasEnded hends⟩

/-- A name without a rule needs one unit. -/
theorem hasEnded_evalRule_of_notMem (hname : name ∉ g.ruleNames) (s : State τ) (fuel : Nat) :
    hasEnded (runFrom s (g.evalRule (fuel + 1) name)) := by
  have hnone : g.rule? name = none := by
    rw [rule?, List.find?_eq_none]
    intro r hr heq
    exact hname (mem_ruleNames.2 ⟨r, hr, by simpa using heq⟩)
  rw [evalRule, hnone]
  rfl

/-! ## No gaps -/

/-- If nothing ends only with one unit more, then it does nothing more with it. -/
theorem abreast_of_ended_eq (h : g.ended input (fuel + 2) = g.ended input (fuel + 1))
    (name : String) :
    Abreast [] [] input.toList (g.evalRule (fuel + 2) name : ParseM τ _)
      (g.evalRule (fuel + 1) name : ParseM τ' _) := by
  intro n s s' haligned
  have hpos : s.pos = n := by simpa using haligned.pos_left
  have hpos' : s'.pos = n := by simpa using haligned.pos_right
  have hmore :=
    hasEnded_evalRule (g := g) haligned.left (hpos ▸ haligned.isBoundary) (fuel + 2) name
  have hless :=
    hasEnded_evalRule (g := g) haligned.right (hpos' ▸ haligned.isBoundary) (fuel + 1) name
  have hends : hasEnded (runFrom s (g.evalRule (fuel + 2) name)) →
      hasEnded (runFrom s' (g.evalRule (fuel + 1) name)) := by
    intro hmore'
    by_cases hname : name ∈ g.ruleNames
    · rw [hless, hpos']
      rw [hmore, hpos] at hmore'
      exact (mem_ended_iff.1 (h ▸ mem_ended_iff.2 ⟨⟨hname, haligned.isBoundary⟩, hmore'⟩)).2
    · exact hasEnded_evalRule_of_notMem hname s' fuel
  have hend := g.abreast_evalRule [] [] input.toList (by omega : fuel + 1 ≤ fuel + 2) name n s' s
    haligned.symm
  generalize runFrom s (g.evalRule (fuel + 2) name) = r,
    runFrom s' (g.evalRule (fuel + 1) name) = r' at hends hend
  cases hend with
  | value hvalue => exact .value hvalue.symm
  | outOfFuel =>
      obtain ⟨halt | a, s₁⟩ := r
      · cases halt with
        | outOfFuel => exact .outOfFuel
        | refused e => cases hends rfl
        | badOffset => cases hends rfl
      · cases hends rfl

/-- Then it does nothing more with another unit either, since this is for the invocations inside. -/
theorem ended_eq_succ (h : g.ended input (fuel + 2) = g.ended input (fuel + 1)) :
    g.ended input (fuel + 3) = g.ended input (fuel + 2) := by
  refine Finset.Subset.antisymm ?_ (ended_subset g input (by omega))
  rintro ⟨name, n⟩ hmem
  obtain ⟨⟨hname, hn⟩, hends⟩ := mem_ended_iff.1 hmem
  have habreast : Abreast [] [] input.toList (g.evalRule (fuel + 3) name : ParseM (Recorder Tree) _)
      (g.evalRule (fuel + 2) name : ParseM (Recorder Tree) _) := by
    rw [evalRule, evalRule]
    cases g.rule? name with
    | none => exact .pure _
    | some r => exact (Abreast.evalClosed.eval (abreast_of_ended_eq h) r.expression).rule name
  have haligned := aligned_init ((unhindered_init (τ := Recorder Tree) input).goTo n) hn
  exact mem_ended_iff.2 ⟨⟨hname, hn⟩, (habreast _ _ _ haligned).hasEnded hends⟩

/-- No invocation that ends needs more fuel than a parse has. -/
theorem ended_subset_fuelFor (g : Grammar) (input : String) (fuel : Nat) :
    g.ended input fuel ⊆ g.ended input (g.fuelFor input) := by
  let bound := g.rules.length * (input.toList.length + 1)
  let number (fuel : Nat) : Nat := (g.ended input (fuel + 1)).card
  have hmono : Monotone number := fun m n hle =>
    Finset.card_le_card (ended_subset g input (by omega))
  have hbound : ∀ n, number n ≤ bound := fun n =>
    (Finset.card_filter_le _ _).trans (Nat.lt_succ_iff.1 (card_invocations_lt g input))
  have hstable : ∀ n, number n = number (n + 1) → number (n + 1) = number (n + 2) := by
    intro n hn
    have heq : g.ended input (n + 1) = g.ended input (n + 2) :=
      Finset.eq_of_subset_of_card_le (ended_subset g input (by omega)) hn.ge
    exact congrArg Finset.card (ended_eq_succ heq.symm).symm
  have hcard : number (max fuel bound) = number bound :=
    Nat.stabilises_of_monotone hmono hbound hstable (le_max_right fuel bound)
  have heq : g.ended input (g.fuelFor input) = g.ended input (max fuel bound + 1) :=
    Finset.eq_of_subset_of_card_le (ended_subset g input (by simp [fuelFor, bound])) hcard.le
  rw [heq]
  exact ended_subset g input (by omega)

/-- From a state that nothing hinders, the invocation of a rule that ends with some fuel does so
with the fuel of a parse. -/
theorem hasEnded_fuelFor {s : State τ} (hs : s.Unhindered input.toList)
    (hpos : IsBoundary s.pos input.toList)
    (h : hasEnded (runFrom s (g.evalRule fuel name))) :
    hasEnded (runFrom s (g.evalRule (g.fuelFor input) name)) := by
  by_cases hname : name ∈ g.ruleNames
  · rw [hasEnded_evalRule hs hpos] at h ⊢
    have hmem : (name, s.pos) ∈ g.ended input fuel := mem_ended_iff.2 ⟨⟨hname, hpos⟩, h⟩
    exact (mem_ended_iff.1 (ended_subset_fuelFor g input fuel hmem)).2
  · exact hasEnded_evalRule_of_notMem hname s _

/-! ## Parses -/

/-- To finish a parse takes no fuel. -/
theorem parseRule_outOfFuel_iff {s : State τ} :
    (runFrom s (g.parseRule fuel name)).1 = .error .outOfFuel ↔
      (runFrom s (g.evalRule fuel name)).1 = .error .outOfFuel := by
  rw [parseRule, runFrom_bind]
  obtain ⟨halt | result, s'⟩ := runFrom s (g.evalRule fuel name)
  · simp [andThen]
  · rw [andThen, finish, runFrom_ofStep]
    cases State.finish? result s' with
    | none => simp
    | some r => simp

/-- A parse without a tracer that ends for some fuel ends with the fuel of a parse. -/
theorem endsWith_iff_fuelFor {start : String}
    {result : Except Halt (Except SyntaxError Tree)} :
    g.EndsWith τ start input result ↔ result ≠ .error .outOfFuel ∧
      (runFrom (State.init input none) (g.parseRule (g.fuelFor input) start : ParseM τ _)).1 =
        result := by
  constructor
  · rintro ⟨hresult, fuel, hrun⟩
    have hends : hasEnded (runFrom (State.init input none) (g.evalRule fuel start : ParseM τ _)) :=
      hasEnded_iff.2 fun h => hresult (hrun.symm.trans (parseRule_outOfFuel_iff.2 h))
    have hfuel := hasEnded_fuelFor (unhindered_init input) (.zero _) hends
    have hends' : g.EndsWith τ start input
        (runFrom (State.init input none) (g.parseRule (g.fuelFor input) start : ParseM τ _)).1 :=
      ⟨fun h => hasEnded_iff.1 hfuel (parseRule_outOfFuel_iff.1 h), _, rfl⟩
    exact ⟨hresult, hends'.unique ⟨hresult, fuel, hrun⟩⟩
  · rintro ⟨hresult, hrun⟩
    exact ⟨hresult, _, hrun⟩

/-- A parse without a tracer has an outcome or runs out of fuel. -/
theorem parseRule_cases (g : Grammar) (fuel : Nat) (name input : String) :
    (runFrom (State.init input none) (g.parseRule fuel name : ParseM τ _)).1 =
        .error .outOfFuel ∨
      ∃ outcome, (runFrom (State.init input none) (g.parseRule fuel name : ParseM τ _)).1 =
        .ok outcome := by
  by_cases h : (runFrom (State.init input none) (g.parseRule fuel name : ParseM τ _)).1 =
      .error .outOfFuel
  · exact .inl h
  · obtain ⟨outcome, -, -, -, -, houtcome⟩ := g.exists_recorded fuel name input h
    exact .inr ⟨outcome, houtcome⟩

/-- The result of a parse, from the run of its start rule. -/
theorem parse_eq {allowed : List String} {start : Option String}
    (hname : resolveStart allowed start = .ok name) (input : String) :
    (g.parse allowed start input (none : Option τ)).1 =
      match (runFrom (State.init input none)
          (g.parseRule (g.fuelFor input) name : ParseM τ _)).1 with
      | .ok outcome => some (outcome.mapError .mismatch)
      | .error (.refused e) => some (.error (.refused e))
      | .error _ => none := by
  rw [parse, hname]
  dsimp only
  obtain ⟨halt | outcome, s⟩ :=
    runFrom (State.init input none) (g.parseRule (g.fuelFor input) name : ParseM τ _)
  · cases halt <;> rfl
  · cases outcome <;> rfl

/-- Without a tracer, the result of a parse is the one with which it ends, and there is none only if
it does not end whatever the fuel is. -/
theorem parse_iff {allowed : List String} {start : Option String}
    (hname : resolveStart allowed start = .ok name) (input : String) :
    (∀ outcome : Except SyntaxError Tree,
      (g.parse allowed start input (none : Option τ)).1 = some (outcome.mapError .mismatch) ↔
        g.EndsWith τ name input (.ok outcome)) ∧
    ((g.parse allowed start input (none : Option τ)).1 = none ↔
      ∀ fuel, (runFrom (State.init input none) (g.parseRule fuel name : ParseM τ _)).1 =
        .error .outOfFuel) := by
  have hnever : (∀ fuel, (runFrom (State.init input none) (g.parseRule fuel name : ParseM τ _)).1 =
      .error .outOfFuel) ↔ ∀ outcome, ¬ g.EndsWith τ name input (.ok outcome) := by
    constructor
    · rintro h outcome ⟨-, fuel, hrun⟩
      cases (h fuel).symm.trans hrun
    · intro h fuel
      refine (g.parseRule_cases fuel name input).resolve_right ?_
      rintro ⟨outcome, hrun⟩
      exact h outcome ⟨nofun, fuel, hrun⟩
  rw [hnever]
  simp only [endsWith_iff_fuelFor, parse_eq hname]
  rcases g.parseRule_cases (τ := τ) (g.fuelFor input) name input with hrun | ⟨outcome, hrun⟩
  · simp [hrun]
  · have hinj : ∀ outcome', outcome.mapError ParseError.mismatch =
        outcome'.mapError ParseError.mismatch ↔ outcome = outcome' := by
      intro outcome'
      cases outcome <;> cases outcome' <;> simp [Except.mapError]
    simp [hrun, hinj]

end Grammar

end PegGen
