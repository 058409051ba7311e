import Mathlib.Data.List.Induction
import PegGen.Proofs.Trace.Calls

/-!
# Lines of arbitrary events

A `LineTracer` may be told of any events, in any order.  It keeps a number only, and refuses an
event that would make it negative.  So the events that it accepts open and close rules in good
order, even if those that it is told do not.

`openPlaces` is what the tracer does not keep: which of the accepted events have opened the rules
that are open now, as a stack.  The line of each such event is indented by the number of rules that
were open around it, and these are the ones below it on the stack (`Aligned.opened`).  The line that
closes a rule is indented by what is then left on the stack, which is the same number.  Two blanks
stand for each of these rules, behind the location and the tag (`toList_line`).
-/

namespace PegGen

open Tracer

variable {V : Type}

/-! ## Accepted events -/

/-- The events that a tracer accepts of those it is told. -/
def Tracer.accepted {τ : Type} [Tracer τ V] (t : τ) : List (Event V) → List (Event V)
  | [] => []
  | event :: events =>
      match (trace t event).verdict with
      | .ok () => event :: accepted (trace t event).next events
      | .error _ => accepted (trace t event).next events

theorem Tracer.accepted_append {τ : Type} [Tracer τ V] (t : τ) (E F : List (Event V)) :
    accepted t (E ++ F) = accepted t E ++ accepted (told t E) F := by
  induction E generalizing t with
  | nil => rfl
  | cons event E ih =>
      rw [List.cons_append, accepted, accepted, told_cons]
      cases (trace t event).verdict with
      | ok => exact congrArg (event :: ·) (ih _)
      | error e => exact ih _

/-- The places of the events that have opened the rules that are open after some events, the latest
first. -/
def openPlaces (events : List (Event V)) : List Nat :=
  events.zipIdx.foldl (fun places event =>
    if event.1.kind = .enter then event.2 :: places else places.tail) []

theorem openPlaces_enter (A : List (Event V)) {event : Event V} (hevent : event.kind = .enter) :
    openPlaces (A ++ [event]) = A.length :: openPlaces A := by
  simp [openPlaces, List.zipIdx_append, hevent]

theorem openPlaces_close (A : List (Event V)) {event : Event V} (hevent : event.kind ≠ .enter) :
    openPlaces (A ++ [event]) = (openPlaces A).tail := by
  simp [openPlaces, List.zipIdx_append, hevent]

namespace LineTracer

/-- Behind the location and the tag of the event there are two blanks for each rule around it, and
then its rule. -/
theorem toList_line (indent : Nat) (event : Event V) :
    (line indent event).toList =
      (event.location.render ++ " " ++ Text.padRight 10 event.kind.tag ++ " ").toList ++
        (List.replicate (2 * indent) ' ' ++ event.rule.toList) := by
  simp [line, Text.repeated]

/-- A tracer that keeps its lines and has been told of nothing. -/
def fresh : LineTracer :=
  ⟨.kept [], 0⟩

/-- What a tracer does with an event: it opens a rule, refuses to close one, or closes one. -/
theorem trace_cases (lines : List String) (depth : Nat) (event : Event V) :
    (event.kind = .enter ∧ Tracer.trace (⟨.kept lines, depth⟩ : LineTracer) event =
      ⟨⟨.kept (lines ++ [line depth event]), depth + 1⟩, .ok (), []⟩) ∨
    (event.kind ≠ .enter ∧ depth = 0 ∧ Tracer.trace (⟨.kept lines, depth⟩ : LineTracer) event =
      ⟨⟨.kept lines, depth⟩, .error (.unbalanced event.rule), []⟩) ∨
    (event.kind ≠ .enter ∧ ∃ n, depth = n + 1 ∧
      Tracer.trace (⟨.kept lines, depth⟩ : LineTracer) event =
        ⟨⟨.kept (lines ++ [line n event]), n⟩, .ok (), []⟩) := by
  cases event with
  | enter rule location => exact .inl ⟨rfl, rfl⟩
  | matched rule location result =>
      cases depth with
      | zero => exact .inr (.inl ⟨nofun, rfl, rfl⟩)
      | succ n => exact .inr (.inr ⟨nofun, n, rfl, rfl⟩)
  | failed rule location =>
      cases depth with
      | zero => exact .inr (.inl ⟨nofun, rfl, rfl⟩)
      | succ n => exact .inr (.inr ⟨nofun, n, rfl, rfl⟩)

/-! ## Where lines stand -/

/-- At a place stands an event, and its line at an indentation. -/
def WrittenAt (A : List (Event V)) (lines : List String) (place indent : Nat) (event : Event V) :
    Prop :=
  A[place]? = some event ∧ lines[place]? = some (line indent event)

namespace WrittenAt

variable {A : List (Event V)} {lines : List String} {place indent : Nat} {event : Event V}

theorem append (h : WrittenAt A lines place indent event) (event' : Event V) (line' : String) :
    WrittenAt (A ++ [event']) (lines ++ [line']) place indent event := by
  obtain ⟨hplace, -⟩ := List.getElem?_eq_some_iff.1 h.1
  obtain ⟨hplace', -⟩ := List.getElem?_eq_some_iff.1 h.2
  exact ⟨(List.getElem?_append_left hplace).trans h.1,
    (List.getElem?_append_left hplace').trans h.2⟩

theorem last (hlength : lines.length = A.length) (indent : Nat) (event : Event V) :
    WrittenAt (A ++ [event]) (lines ++ [line indent event]) A.length indent event :=
  ⟨List.getElem?_concat_length, hlength ▸ List.getElem?_concat_length⟩

end WrittenAt

/-- An event closes a rule, with a line under the one of the event that has opened it: both are
indented by the number of rules that are open around this one. -/
def ClosedAt (A : List (Event V)) (lines : List String) (place : Nat) (event : Event V) : Prop :=
  ∃ place' others opener, openPlaces (A.take place) = place' :: others ∧ opener.kind = .enter ∧
    WrittenAt A lines place' others.length opener ∧ WrittenAt A lines place others.length event

theorem ClosedAt.append {A : List (Event V)} {lines : List String} {place : Nat} {event : Event V}
    (h : ClosedAt A lines place event) (event' : Event V) (line' : String) :
    ClosedAt (A ++ [event']) (lines ++ [line']) place event := by
  obtain ⟨place', others, opener, hopen, hopener, hfirst, hlast⟩ := h
  obtain ⟨hplace, -⟩ := List.getElem?_eq_some_iff.1 hlast.1
  refine ⟨place', others, opener, ?_, hopener, hfirst.append _ _, hlast.append _ _⟩
  rwa [List.take_append_of_le_length (Nat.le_of_lt hplace)]

/-- The lines and the depth of a tracer that has accepted some events. -/
structure Aligned (A : List (Event V)) (lines : List String) (depth : Nat) : Prop where
  /-- There is a line for every event. -/
  length_lines : lines.length = A.length
  /-- The depth is the number of open rules. -/
  length_openPlaces : (openPlaces A).length = depth
  /-- Every event opens a rule or closes one. -/
  balance : depth + A.countP (fun event => event.kind ≠ .enter) =
    A.countP fun event => event.kind = .enter
  /-- The line of an open rule is indented by the number of rules that are open around it. -/
  opened : ∀ place others, place :: others <:+ openPlaces A →
    ∃ opener, opener.kind = .enter ∧ WrittenAt A lines place others.length opener
  /-- The line that closes a rule stands under the one that has opened it. -/
  closed : ∀ place event, A[place]? = some event → event.kind ≠ .enter →
    ClosedAt A lines place event

namespace Aligned

variable {A : List (Event V)} {lines : List String} {depth : Nat} {event : Event V}

theorem nil : Aligned ([] : List (Event V)) [] 0 where
  length_lines := rfl
  length_openPlaces := rfl
  balance := rfl
  opened _ _ hsuffix := nomatch List.suffix_nil.1 hsuffix
  closed _ _ hplace := nomatch hplace

/-- The line that opens a rule is indented by the rules that are open already. -/
theorem enter (h : Aligned A lines depth) (hevent : event.kind = .enter) :
    Aligned (A ++ [event]) (lines ++ [line depth event]) (depth + 1) where
  length_lines := by simp [h.length_lines]
  length_openPlaces := by simp [openPlaces_enter A hevent, h.length_openPlaces]
  balance := by
    have hbalance := h.balance
    simp only [List.countP_append, List.countP_singleton, hevent]
    simp at hbalance ⊢
    omega
  opened place others hsuffix := by
    rw [openPlaces_enter A hevent, List.suffix_cons_iff] at hsuffix
    rcases hsuffix with heq | hsuffix
    · obtain ⟨rfl, rfl⟩ := List.cons.inj heq
      rw [h.length_openPlaces]
      exact ⟨event, hevent, .last h.length_lines depth event⟩
    · obtain ⟨opener, hopener, hwritten⟩ := h.opened place others hsuffix
      exact ⟨opener, hopener, hwritten.append _ _⟩
  closed place closing hplace hclosing := by
    rw [List.getElem?_append] at hplace
    split at hplace
    · exact (h.closed place closing hplace hclosing).append _ _
    · obtain rfl := List.mem_singleton.1 (List.mem_of_getElem? hplace)
      exact absurd hevent hclosing

/-- An event that is no opening closes the latest rule that is open, and leaves the others. -/
theorem close {n : Nat} (h : Aligned A lines (n + 1)) (hevent : event.kind ≠ .enter) :
    Aligned (A ++ [event]) (lines ++ [line n event]) n where
  length_lines := by simp [h.length_lines]
  length_openPlaces := by simp [openPlaces_close A hevent, h.length_openPlaces]
  balance := by
    have hbalance := h.balance
    simp only [List.countP_append, List.countP_singleton]
    simp [hevent] at hbalance ⊢
    omega
  opened place others hsuffix := by
    rw [openPlaces_close A hevent] at hsuffix
    obtain ⟨opener, hopener, hwritten⟩ :=
      h.opened place others (hsuffix.trans (List.tail_suffix _))
    exact ⟨opener, hopener, hwritten.append _ _⟩
  closed place closing hplace hclosing := by
    rw [List.getElem?_append] at hplace
    split at hplace
    · exact (h.closed place closing hplace hclosing).append _ _
    next hge =>
      obtain ⟨hlt, -⟩ := List.getElem?_eq_some_iff.1 hplace
      obtain rfl := List.mem_singleton.1 (List.mem_of_getElem? hplace)
      obtain rfl : place = A.length := by simp at hlt; omega
      obtain ⟨place', others, hopen⟩ := List.exists_cons_of_length_eq_add_one h.length_openPlaces
      obtain ⟨opener, hopener, hwritten⟩ := h.opened place' others (hopen ▸ List.suffix_refl _)
      have hothers : others.length = n := by simpa [hopen] using h.length_openPlaces
      refine ⟨place', others, opener, by rwa [List.take_left], hopener, hwritten.append _ _, ?_⟩
      rw [hothers]
      exact .last h.length_lines n closing

end Aligned

/-- Whatever a tracer is told, the lines and the depth are those of the accepted events. -/
theorem exists_aligned (E : List (Event V)) :
    ∃ lines depth, told fresh E = ⟨.kept lines, depth⟩ ∧
      Aligned (accepted fresh E) lines depth := by
  induction E using List.reverseRecOn with
  | nil => exact ⟨[], 0, rfl, .nil⟩
  | append_singleton E event ih =>
      obtain ⟨lines, depth, htold, haligned⟩ := ih
      rw [told_append, accepted_append, htold, told_cons, told_nil, accepted]
      rcases trace_cases lines depth event with
        ⟨hevent, htrace⟩ | ⟨hevent, hdepth, htrace⟩ | ⟨hevent, n, rfl, htrace⟩
      · rw [htrace]
        exact ⟨_, _, rfl, haligned.enter hevent⟩
      · rw [htrace, accepted, List.append_nil]
        exact ⟨lines, depth, rfl, haligned⟩
      · rw [htrace]
        exact ⟨_, _, rfl, haligned.close hevent⟩

/-- A tracer is told of any events.  It refuses an event exactly when it would close a rule and the
accepted events have closed as many as they have opened.  The error then names the rule of the
event, and nothing changes.  An accepted event adds its line, which is indented by the number of
rules that are open besides the one of the event.  The depth is the number of rules that were opened
less those that were closed, and the line of every event that closes a rule has the indentation of
the line of the event that has opened it, which is the latest one whose rule is still open. -/
theorem lines_aligned (E : List (Event V)) :
    let t := told fresh E
    let A := accepted fresh E
    let opens := A.countP fun event => event.kind = .enter
    let closes := A.countP fun event => event.kind ≠ .enter
    (∀ event : Event V,
      ((∃ e, (Tracer.trace t event).verdict = .error e) ↔
        event.kind ≠ .enter ∧ opens = closes) ∧
      (∀ e, (Tracer.trace t event).verdict = .error e →
        e = .unbalanced event.rule ∧ (Tracer.trace t event).next = t) ∧
      ((Tracer.trace t event).verdict = .ok () →
        (Tracer.trace t event).next.sink = .kept (t.sink.lines ++
          [line (if event.kind = .enter then t.depth else t.depth - 1) event]))) ∧
    t.depth + closes = opens ∧ t.sink.lines.length = A.length ∧
    ∀ place event, A[place]? = some event → event.kind ≠ .enter →
      ClosedAt A t.sink.lines place event := by
  intro t A opens closes
  obtain ⟨lines, depth, htold, haligned⟩ := exists_aligned E
  have ht : t = ⟨.kept lines, depth⟩ := htold
  have hbalance : depth + closes = opens := haligned.balance
  rw [ht]
  refine ⟨fun event => ?_, hbalance, haligned.length_lines, haligned.closed⟩
  rcases trace_cases lines depth event with
    ⟨hevent, htrace⟩ | ⟨hevent, rfl, htrace⟩ | ⟨hevent, n, rfl, htrace⟩
  · rw [htrace]
    exact ⟨⟨nofun, fun h => absurd hevent h.1⟩, nofun, fun _ => by rw [if_pos hevent]; rfl⟩
  · rw [htrace]
    refine ⟨⟨fun _ => ⟨hevent, by omega⟩, fun _ => ⟨_, rfl⟩⟩, ?_, nofun⟩
    intro e he
    cases he
    exact ⟨rfl, rfl⟩
  · rw [htrace]
    exact ⟨⟨nofun, fun h => by omega⟩, nofun, fun _ => by rw [if_neg hevent]; rfl⟩

end LineTracer

end PegGen
