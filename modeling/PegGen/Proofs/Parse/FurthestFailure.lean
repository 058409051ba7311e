import PegGen.Proofs.Parse.Client

/-!
# The furthest failure is exact

A parse state forgets failures as it goes: nearer ones at once, and others when a further one
arrives.  What it knows at any moment is still exactly what the list of all failures says, if those
are left out that were raised while the body of a silenced or named call was active.

The invariant of a run has three parts: the state has a silencer for every active body, its furthest
failure is exact for the history, and both were so at every moment before (`Tracked`).
-/

namespace PegGen

variable {τ V : Type}

/-! ## Lists of failures -/

/-- The failures that were raised while no silenced or named body was active, in order. -/
def noticed (h : List (Moment τ)) : List (Nat × Expectation) :=
  h.filterMap fun m => if m.depth = 0 then m.raised else none

/-- The largest offset of some failures, or zero. -/
def largestOffset (failures : List (Nat × Expectation)) : Nat :=
  (failures.map (·.1)).foldr max 0

/-- What the failures at an offset expected, each once, in order of first occurrence. -/
def expectedAt (offset : Nat) (failures : List (Nat × Expectation)) : List Expectation :=
  ((failures.filter (·.1 = offset)).map (·.2)).eraseDups

section Lists

variable {failures : List (Nat × Expectation)} {offset : Nat} {e : Expectation}

theorem largestOffset_append :
    largestOffset (failures ++ [(offset, e)]) = max (largestOffset failures) offset := by
  induction failures with
  | nil => rw [List.nil_append, largestOffset, largestOffset, Nat.max_comm]; rfl
  | cons x failures ih =>
      show max x.1 (largestOffset (failures ++ [(offset, e)])) =
        max (max x.1 (largestOffset failures)) offset
      rw [ih, Nat.max_assoc]

theorem le_largestOffset {x : Nat × Expectation} (hx : x ∈ failures) :
    x.1 ≤ largestOffset failures := by
  induction failures with
  | nil => cases hx
  | cons y failures ih =>
      show x.1 ≤ max y.1 (largestOffset failures)
      cases hx with
      | head => exact Nat.le_max_left ..
      | tail _ hx => exact Nat.le_trans (ih hx) (Nat.le_max_right ..)

theorem expectedAt_append_of_ne {offset' : Nat} (h : offset ≠ offset') :
    expectedAt offset' (failures ++ [(offset, e)]) = expectedAt offset' failures := by
  have hnone : [(offset, e)].filter (·.1 = offset') = [] := by simp [h]
  rw [expectedAt, expectedAt, List.filter_append, hnone, List.append_nil]

theorem expectedAt_append_self :
    expectedAt offset (failures ++ [(offset, e)]) =
      if e ∈ expectedAt offset failures then expectedAt offset failures
      else expectedAt offset failures ++ [e] := by
  have hlast : ([(offset, e)].filter (·.1 = offset)).map (·.2) = [e] := by simp
  rw [expectedAt, expectedAt, List.filter_append, List.map_append, hlast, List.eraseDups_append]
  generalize (failures.filter (·.1 = offset)).map (·.2) = known
  by_cases h : e ∈ known
  · rw [if_pos (List.mem_eraseDups.2 h)]
    simp [List.removeAll, h]
  · rw [if_neg fun he => h (List.mem_eraseDups.1 he)]
    simp [List.removeAll, h, List.eraseDups_cons]

/-- Beyond all failures nothing was expected. -/
theorem expectedAt_of_lt (h : largestOffset failures < offset) :
    expectedAt offset failures = [] := by
  have hnone : failures.filter (·.1 = offset) = [] := by
    refine List.filter_eq_nil_iff.2 fun x hx => ?_
    have hle := le_largestOffset hx
    simp only [decide_eq_true_eq]
    omega
  rw [expectedAt, hnone]
  rfl

end Lists

/-! ## One failure -/

/-- The furthest failure is what a list of failures says. -/
structure Furthest.IsExact (f : Furthest) (failures : List (Nat × Expectation)) : Prop where
  pos : f.pos = largestOffset failures
  expected : f.expected.toList = expectedAt f.pos failures

theorem Furthest.IsExact.record {f : Furthest} {failures : List (Nat × Expectation)}
    (h : f.IsExact failures) (pos : Nat) (e : Expectation) :
    (f.record pos e).IsExact (failures ++ [(pos, e)]) := by
  have hpos := h.pos
  rw [Furthest.record]
  split
  next hnearer =>
    constructor
    · rw [largestOffset_append]
      omega
    · rw [expectedAt_append_of_ne (Nat.ne_of_lt hnearer)]
      exact h.expected
  next hnearer =>
    split
    next hfurther =>
      constructor
      · rw [largestOffset_append]
        show pos = _
        omega
      · show [e] = expectedAt pos _
        rw [expectedAt_append_self, expectedAt_of_lt (hpos ▸ hfurther)]
        rfl
    next hfurther =>
      have heq : f.pos = pos := Nat.le_antisymm (Nat.not_lt.1 hnearer) (Nat.not_lt.1 hfurther)
      subst heq
      constructor
      · rw [largestOffset_append]
        show f.pos = _
        omega
      · show (f.expected.insert e).toList = expectedAt f.pos _
        rw [expectedAt_append_self, OrderedSet.toList_insert, h.expected]

/-! ## Runs -/

/-- A state with a silencer for every active body, whose furthest failure is exact for the history,
after moments of which the same holds. -/
structure Tracked (depth : Nat) (s : State τ) (h : List (Moment τ)) : Prop where
  silencers : s.silencers = depth
  furthest : s.furthest.IsExact (noticed h)
  moments : ∀ before m after, h = before ++ m :: after →
    m.state.silencers = m.depth ∧ m.state.furthest.IsExact (noticed (before ++ [m]))

theorem noticed_append (h : List (Moment τ)) (m : Moment τ) :
    noticed (h ++ [m]) = noticed h ++ if m.depth = 0 then m.raised.toList else [] := by
  rw [noticed, noticed, List.filterMap_append]
  by_cases hdepth : m.depth = 0
  · cases hraised : m.raised with
    | none => simp [hdepth, hraised]
    | some failure => simp [hdepth, hraised]
  · simp [hdepth]

/-- One more moment.  Those in front of it are tracked already. -/
theorem Tracked.append {s s' : State τ} {h : List (Moment τ)} {depth : Nat}
    (hs : Tracked depth s h) (raised : Option (Nat × Expectation))
    (hsilencers : s'.silencers = depth)
    (hfurthest : s'.furthest.IsExact (noticed (h ++ [⟨depth, raised, s'⟩]))) :
    Tracked depth s' (h ++ [⟨depth, raised, s'⟩]) := by
  refine ⟨hsilencers, hfurthest, fun before m after heq => ?_⟩
  rcases List.eq_nil_or_concat after with rfl | ⟨after, last, rfl⟩
  · obtain ⟨rfl, hm⟩ := List.append_inj' heq rfl
    cases hm
    exact ⟨hsilencers, hfurthest⟩
  · rw [List.concat_eq_append, ← List.cons_append, ← List.append_assoc] at heq
    exact hs.moments before m after (List.append_inj' heq rfl).1

/-- Every call keeps track. -/
theorem invariant_tracked : Client.Invariant (τ := τ) Tracked where
  seek _ hs := ⟨hs.silencers, hs.furthest, hs.moments⟩
  position hstep hs := by
    obtain ⟨cache, rfl⟩ := State.position?_cases hstep
    exact ⟨hs.silencers, hs.furthest, hs.moments⟩
  aside _ _ hs := ⟨hs.silencers, hs.furthest, hs.moments⟩
  quiet {depth s h} hs := by
    refine hs.append none hs.silencers ?_
    rw [noticed_append]
    simpa using hs.furthest
  fail {depth s h} e hs := by
    refine hs.append (some (s.pos, e)) ((s.silencers_fail e).trans hs.silencers) ?_
    rw [noticed_append, State.fail, hs.silencers]
    by_cases hdepth : depth = 0
    · rw [if_pos hdepth, if_pos hdepth]
      exact hs.furthest.record s.pos e
    · rw [if_neg hdepth, if_neg hdepth, List.append_nil]
      exact hs.furthest
  silence hs := ⟨congrArg (· + 1) hs.silencers, hs.furthest, hs.moments⟩
  unsilence hs := ⟨congrArg (· - 1) hs.silencers, hs.furthest, hs.moments⟩

/-- Every call keeps a silencer for every active body. -/
theorem invariant_silencers : Client.Invariant (τ := τ) fun depth s _ => s.silencers = depth where
  seek _ hs := hs
  position hstep hs := by
    obtain ⟨cache, rfl⟩ := State.position?_cases hstep
    exact hs
  aside _ _ hs := hs
  quiet hs := hs
  fail {_ s _} e hs := (s.silencers_fail e).trans hs
  silence hs := congrArg (· + 1) hs
  unsilence hs := congrArg (· - 1) hs

variable [Tracer τ V]

/-- At every moment of every run, the furthest failure is what the failures so far say that were
raised while no silenced or named body was active, and there is a silencer for every active body.
After a silenced or named call, however its body ends, there are as many silencers as before. -/
theorem furthest_exact (c : Client τ V) (input : String) (tracer : Option τ) :
    (∀ before m after, c.history input tracer = before ++ m :: after →
      m.state.furthest.pos = largestOffset (noticed (before ++ [m])) ∧
      m.state.furthest.expected.toList =
        expectedAt m.state.furthest.pos (noticed (before ++ [m])) ∧
      m.state.silencers = m.depth) ∧
    ∀ (body : Client τ V) (description : String) (s : State τ) (h : List (Moment τ)),
      (WatchedM.runFrom s h (ParseT.silenced
        (WatchedM.begun (s.silencers + 1) (body.run (s.silencers + 1))))).1.2.silencers =
          s.silencers ∧
      (WatchedM.runFrom s h (ParseT.named description
        (WatchedM.begun (s.silencers + 1) (body.run (s.silencers + 1))))).1.2.silencers =
          s.silencers := by
  constructor
  · intro before m after hhistory
    have hinit : Tracked 0 (State.init input tracer) [] :=
      ⟨rfl, ⟨rfl, rfl⟩, fun before m after h => by simp at h⟩
    have hrun := invariant_tracked.begun (invariant_tracked.run c) _ _ hinit
    obtain ⟨hsilencers, hexact⟩ := hrun.moments before m after hhistory
    exact ⟨hexact.pos, hexact.expected, hsilencers⟩
  · intro body description s h
    have hbody : WatchedM.Keeps (fun s' _ => s'.silencers = s.silencers + 1)
        (body.run (s.silencers + 1)) := invariant_silencers.run body
    have hsilenced := invariant_silencers.silenced (invariant_silencers.begun hbody)
    refine ⟨hsilenced s h rfl, (hsilenced.bind fun result => ?_) s h rfl⟩
    cases result with
    | none =>
        refine .bind (fun s' _ hs' => ?_) fun _ => .pure _
        exact (s'.silencers_fail (.other description)).trans hs'
    | some value => exact .pure _

/-- The failure inside a named call is not noticed, the one of the call itself is. -/
example :
    let c : Client LineTracer Unit := .fail (.other "a") (.consume (.literal "x" false) fun _ =>
      .named "b" (.fail (.other "c") (.done (.ok none))) fun _ => .done (.ok none))
    (c.history "xy" none).map (fun m => (m.depth, m.raised, m.state.furthest.pos)) =
      [(0, none, 0), (0, some (0, .other "a"), 0), (0, none, 0), (1, none, 0),
        (1, some (1, .other "c"), 0), (0, some (1, .other "b"), 1)] := by decide

end PegGen
