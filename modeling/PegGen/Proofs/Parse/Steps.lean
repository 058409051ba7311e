import PegGen.Parse.State

/-!
# What steps change

Each elementary step of a parse changes a few parts of the state and leaves the others alone.  The
lemmas of this module say once what the state after a step is, and proofs about runs cite them
instead of unfolding the steps.
-/

namespace PegGen.State

variable {τ : Type} {s s' : State τ}

@[simp] theorem input_fail (e : Expectation) (s : State τ) : (s.fail e).input = s.input := by
  rw [fail]
  split <;> rfl

@[simp] theorem pos_fail (e : Expectation) (s : State τ) : (s.fail e).pos = s.pos := by
  rw [fail]
  split <;> rfl

@[simp] theorem silencers_fail (e : Expectation) (s : State τ) :
    (s.fail e).silencers = s.silencers := by
  rw [fail]
  split <;> rfl

@[simp] theorem tracer_fail (e : Expectation) (s : State τ) : (s.fail e).tracer = s.tracer := by
  rw [fail]
  split <;> rfl

/-- A match moves past the text, anything else is a failure. -/
theorem consume?_cases {e : Expectation} {r : Option String} (h : s.consume? e = some (r, s')) :
    ∃ rest, s.rest? = some rest ∧
      ((∃ text, e.matched? rest = some text ∧ r = some (String.ofList text) ∧
        s' = { s with pos := s.pos + Text.byteLength text }) ∨
      (e.matched? rest = none ∧ r = none ∧ s' = s.fail e)) := by
  rw [consume?, Option.map_eq_some_iff] at h
  obtain ⟨rest, hrest, h⟩ := h
  refine ⟨rest, hrest, ?_⟩
  cases hm : e.matched? rest with
  | some text =>
      simp only [hm, Prod.mk.injEq] at h
      exact .inl ⟨text, rfl, h.1.symm, h.2.symm⟩
  | none =>
      simp only [hm, Prod.mk.injEq] at h
      exact .inr ⟨rfl, h.1.symm, h.2.symm⟩

/-- Computing a position changes the cache only. -/
theorem position?_cases {offset : Nat} {p : Position} (h : s.position? offset = some (p, s')) :
    ∃ cache, s' = { s with cache := cache } := by
  rw [position?, Option.map_eq_some_iff] at h
  obtain ⟨scanned, -, h⟩ := h
  exact ⟨_, (congrArg Prod.snd h).symm⟩

/-- A location is two positions, computed one after the other. -/
theorem positions_of_location? {start stop : Nat} {l : Location}
    (h : s.location? start stop = some (l, s')) :
    ∃ s₁, s.position? start = some (l.start, s₁) ∧ s₁.position? stop = some (l.stop, s') := by
  rw [location?, Option.bind_eq_some_iff] at h
  obtain ⟨⟨first, s₁⟩, hfirst, h⟩ := h
  obtain ⟨⟨last, s₂⟩, hlast, h⟩ := Option.map_eq_some_iff.1 h
  cases h
  exact ⟨s₁, hfirst, hlast⟩

/-- Computing a location changes the cache only. -/
theorem location?_cases {start stop : Nat} {l : Location}
    (h : s.location? start stop = some (l, s')) : ∃ cache, s' = { s with cache := cache } := by
  obtain ⟨s₁, hfirst, hlast⟩ := positions_of_location? h
  obtain ⟨c₁, rfl⟩ := position?_cases hfirst
  obtain ⟨c₂, rfl⟩ := position?_cases hlast
  exact ⟨c₂, rfl⟩

/-- Building an error computes a location and writes a line to the log. -/
theorem location_of_error? {e : SyntaxError} (h : s.error? = some (e, s')) :
    ∃ start stop s₁ log, s.location? start stop = some (e.location, s₁) ∧
      s' = { s₁ with log := log } := by
  rw [error?, Option.bind_eq_some_iff] at h
  obtain ⟨rest, -, h⟩ := h
  obtain ⟨⟨location, s₁⟩, hlocation, h⟩ := Option.map_eq_some_iff.1 h
  cases h
  exact ⟨_, _, s₁, _, hlocation, rfl⟩

/-- Building an error changes the cache and the log only. -/
theorem error?_cases {e : SyntaxError} (h : s.error? = some (e, s')) :
    ∃ cache log, s' = { s with cache := cache, log := log } := by
  obtain ⟨start, stop, s₁, log, hlocation, rfl⟩ := location_of_error? h
  obtain ⟨cache, rfl⟩ := location?_cases hlocation
  exact ⟨cache, log, rfl⟩

/-- Finishing a parse may take note of a failure to reach the end, and build an error. -/
theorem finish?_cases {V : Type} {result : Option V} {r : Except SyntaxError V}
    (h : s.finish? result = some (r, s')) :
    ∃ s₁ cache log, (s₁ = s ∨ s₁ = s.fail .endOfInput) ∧
      s' = { s₁ with cache := cache, log := log } := by
  cases result with
  | none =>
      rw [finish?, Option.map_eq_some_iff] at h
      obtain ⟨⟨e, s₂⟩, h₁, h⟩ := h
      obtain ⟨cache, log, rfl⟩ := error?_cases h₁
      exact ⟨s, cache, log, .inl rfl, (congrArg Prod.snd h).symm⟩
  | some value =>
      rw [finish?] at h
      split at h
      · cases h
        exact ⟨s, s.cache, s.log, .inl rfl, rfl⟩
      · rw [Option.map_eq_some_iff] at h
        obtain ⟨⟨e, s₂⟩, h₁, h⟩ := h
        obtain ⟨cache, log, rfl⟩ := error?_cases h₁
        exact ⟨_, cache, log, .inr rfl, (congrArg Prod.snd h).symm⟩

end PegGen.State
