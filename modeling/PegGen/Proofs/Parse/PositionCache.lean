import PegGen.Proofs.Parse.Client
import PegGen.Proofs.Parse.Positions

/-!
# The position cache is not observed

Whatever was done with a parse state, it gives the position of an offset as it is counted from the
start of the input.  Every change that a call makes keeps the cache exact: only a computed position
writes it, and no call writes the input.
-/

namespace PegGen

open Text

variable {τ V : Type}

/-- A state over the input whose cache is exact. -/
structure State.Counts (input : List Char) (s : State τ) : Prop where
  input : s.input = input
  cache : s.CacheExact

theorem State.Counts.position? {input : List Char} {s s' : State τ} {offset : Nat} {p : Position}
    (hs : s.Counts input) (h : s.position? offset = some (p, s')) : s'.Counts input := by
  have hcache := hs.cache.position? h
  obtain ⟨cache, rfl⟩ := State.position?_cases h
  exact ⟨hs.input, hcache⟩

theorem State.Counts.fail {input : List Char} {s : State τ} (hs : s.Counts input)
    (e : Expectation) : (s.fail e).Counts input := by
  rw [State.fail]
  split
  · exact ⟨hs.input, hs.cache.isBoundary, hs.cache.position⟩
  · exact hs

/-- Every call keeps the cache exact, and at every moment before it was so. -/
theorem invariant_counts (input : List Char) : Client.Invariant (τ := τ) fun _ s h =>
    s.Counts input ∧ ∀ m ∈ h, m.state.Counts input where
  seek _ := fun ⟨hs, hh⟩ => ⟨⟨hs.input, hs.cache.isBoundary, hs.cache.position⟩, hh⟩
  position hstep := fun ⟨hs, hh⟩ => ⟨hs.position? hstep, hh⟩
  aside _ _ := fun ⟨hs, hh⟩ => ⟨⟨hs.input, hs.cache.isBoundary, hs.cache.position⟩, hh⟩
  quiet := fun ⟨hs, hh⟩ => ⟨hs, List.forall_mem_append.2 ⟨hh, List.forall_mem_singleton.2 hs⟩⟩
  fail e := fun ⟨hs, hh⟩ =>
    ⟨hs.fail e, List.forall_mem_append.2 ⟨hh, List.forall_mem_singleton.2 (hs.fail e)⟩⟩
  silence := fun ⟨hs, hh⟩ => ⟨⟨hs.input, hs.cache.isBoundary, hs.cache.position⟩, hh⟩
  unsilence := fun ⟨hs, hh⟩ => ⟨⟨hs.input, hs.cache.isBoundary, hs.cache.position⟩, hh⟩

variable [Tracer τ V]

theorem Client.counts_of_mem_history (c : Client τ V) (input : String) (tracer : Option τ)
    {m : Moment τ} (hm : m ∈ c.history input tracer) : m.state.Counts input.toList := by
  have hinit : (State.init input tracer).Counts input.toList :=
    ⟨rfl, State.cacheExact_init input tracer⟩
  have hI := invariant_counts (τ := τ) input.toList
  have hrun : WatchedM.Keeps _ (c.run 0) := hI.run c
  exact (hI.begun hrun _ _ ⟨hinit, fun _ hm => absurd hm List.not_mem_nil⟩).2 m hm

/-- At every moment of every run, an offset that is a boundary when it is brought down to the end of
the input has the position that one counts from the start, and computing it changes the cache only.
Any other offset has none. -/
theorem position_exact (c : Client τ V) (input : String) (tracer : Option τ) (offset : Nat)
    {m : Moment τ} (hm : m ∈ c.history input tracer) :
    (∀ before after, input.toList = before ++ after →
      byteLength before = min offset (byteLength input.toList) →
      let position : Position := ⟨1 + before.count '\n', 1 + (lastLine before).length,
        some (min offset (byteLength input.toList))⟩
      m.state.position? offset = some (position,
        { m.state with cache := (min offset (byteLength input.toList), position) })) ∧
    (m.state.position? offset = none ↔
      ¬ IsBoundary (min offset (byteLength input.toList)) input.toList) := by
  obtain ⟨hinput, hcache⟩ := c.counts_of_mem_history input tracer hm
  rw [← hinput]
  constructor
  · intro before after hsplit hlength
    have hposition : Position.ofOffset m.state.input (byteLength before) = .after before := by
      rw [hsplit, Position.ofOffset_append]
    rw [← hlength, State.position?_of_isBoundary hcache hlength.symm ⟨before, after, hsplit, rfl⟩,
      hposition]
    rfl
  · exact State.position?_eq_none_iff hcache

/-- Asks for a position past the end, and then for one before it inside a rule. -/
def Client.roaming : Client (Recorder Unit) Unit :=
  .position 99 fun _ =>
    .rule "r" (.position 1 fun _ => .done (.ok none)) fun _ => .done (.ok none)

theorem position_exact_roaming :
    ∃ m ∈ Client.roaming.history "aé\nλb" (some {}), m.state.cache.1 = 0 ∧
      (∃ s, m.state.position? 6 = some (⟨2, 2, some 6⟩, s)) ∧ m.state.position? 5 = none := by
  have hlast : (Client.roaming.history "aé\nλb" (some {})).getLast?.map (·.state.cache.1) =
      some 0 := by decide +kernel
  obtain ⟨m, hm, hcache⟩ := Option.map_eq_some_iff.1 hlast
  have hmem := List.mem_of_getLast? hm
  have hsix := (position_exact Client.roaming _ _ 6 hmem).1 ['a', 'é', '\n', 'λ'] ['b'] (by decide)
    (by decide)
  have hfive := (position_exact Client.roaming _ _ 5 hmem).2.2 (by decide)
  exact ⟨m, hmem, hcache, ⟨_, hsix⟩, hfive⟩

end PegGen
