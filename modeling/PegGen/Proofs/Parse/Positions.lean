import PegGen.Parse.Action
import PegGen.Proofs.Parse.Steps
import PegGen.Proofs.Text.Boundary

/-!
# Positions counted from the start

The position of an offset is what one finds by counting lines and columns from the start of the
input (`Position.ofOffset`).  A parse state resumes the count from its cache.  As long as the cache
is exact, which is to say that it holds a boundary with its counted position, the count from there
comes to the same, and it leaves an exact cache behind.

So with an exact cache the steps that compute positions have results that do not depend on it
(`State.position?_of_isBoundary`, `State.location?_of_isBoundary`, `State.error?_of_split`), and
neither does what a tracer is told (`runFrom_report_of_tracer`).
-/

namespace PegGen

open Text ParseT

/-- What follows the last line feed of a text. -/
def Text.lastLine (s : List Char) : List Char :=
  (s.reverse.takeWhile (· ≠ '\n')).reverse

namespace Position

/-- The position after a text at the start of an input. -/
def after (before : List Char) : Position :=
  ⟨1 + before.count '\n', 1 + (lastLine before).length, some (byteLength before)⟩

/-- The position of an offset, counted from the start of the input. -/
def ofOffset (input : List Char) (offset : Nat) : Position :=
  after ((takeBytes? offset input).getD [])

@[simp] theorem ofOffset_append (before rest : List Char) :
    ofOffset (before ++ rest) (byteLength before) = after before := by
  rw [ofOffset, takeBytes?_byteLength_append, Option.getD_some]

@[simp] theorem ofOffset_zero (input : List Char) : ofOffset input 0 = start := by
  simp [ofOffset, after, start, lastLine]

theorem advance_after (before : List Char) (c : Char) (offset : Option Nat) :
    advance { after before with offset := offset } c =
      { after (before ++ [c]) with offset := offset } := by
  by_cases hc : c = '\n'
  · subst hc
    simp [advance, after, lastLine, Nat.add_assoc]
  · simp [advance, after, lastLine, hc, Nat.add_assoc]

/-- Going on from the position after a text comes to the position after both. -/
theorem foldl_advance_after (before t : List Char) (offset : Option Nat) :
    t.foldl advance { after before with offset := offset } =
      { after (before ++ t) with offset := offset } := by
  induction t generalizing before with
  | nil => simp
  | cons c t ih =>
      rw [List.foldl_cons, advance_after, ih]
      simp

end Position

namespace State

variable {τ : Type} {s s' : State τ}

/-- The cache holds a boundary with its position. -/
structure CacheExact (s : State τ) : Prop where
  isBoundary : IsBoundary s.cache.1 s.input
  position : s.cache.2 = .ofOffset s.input s.cache.1

theorem cacheExact_init (input : String) (tracer : Option τ) :
    (State.init input tracer).CacheExact :=
  ⟨.zero _, (Position.ofOffset_zero _).symm⟩

/-- Where the count begins: an exact pair that does not lie behind the offset. -/
theorem CacheExact.origin (hs : s.CacheExact) (o : Nat) :
    ∃ n, (if o < s.cache.1 then (0, Position.start) else s.cache) =
      (n, Position.ofOffset s.input n) ∧ IsBoundary n s.input ∧ n ≤ o := by
  split
  next => exact ⟨0, by simp, .zero _, Nat.zero_le _⟩
  next hle => exact ⟨s.cache.1, Prod.ext rfl hs.position, hs.isBoundary, Nat.not_lt.1 hle⟩

/-- A position is computed at boundaries only, whatever the cache is. -/
theorem isBoundary_of_position? {offset : Nat} {p : Position}
    (h : s.position? offset = some (p, s')) :
    IsBoundary (min offset (byteLength s.input)) s.input := by
  obtain ⟨scanned, hscanned, -⟩ := Option.map_eq_some_iff.1 h
  obtain ⟨before, rest, hinput, -, hstop⟩ := sliceBytes?_eq_some_iff.1 hscanned
  exact ⟨before ++ scanned, rest, hinput, hstop⟩

/-- At a boundary the position is the one counted from the start.  From where counting starts, only
the text in between is counted. -/
theorem position?_of_isBoundary (hs : s.CacheExact) {offset o : Nat}
    (ho : min offset (byteLength s.input) = o) (hboundary : IsBoundary o s.input) :
    s.position? offset =
      some (.ofOffset s.input o, { s with cache := (o, .ofOffset s.input o) }) := by
  obtain ⟨n, horigin, hn, hle⟩ := hs.origin o
  obtain ⟨before, t, rest, hinput, hbefore, ht⟩ := hn.exists_between hboundary hle
  have hslice : sliceBytes? n o s.input = some t :=
    sliceBytes?_eq_some_iff.2 ⟨before, rest, hinput, hbefore, ht⟩
  have hstart : Position.ofOffset s.input n = .after before := by
    rw [hinput, List.append_assoc, ← hbefore, Position.ofOffset_append]
  have hstop : Position.ofOffset s.input o = .after (before ++ t) := by
    rw [hinput, ← ht, Position.ofOffset_append]
  have hcount : t.foldl Position.advance (.after before) =
      { Position.after (before ++ t) with offset := some (byteLength before) } :=
    Position.foldl_advance_after before t (some (byteLength before))
  simp only [position?, ho, horigin, hslice, Option.map_some, hstart, hstop, hcount]
  rw [← ht]
  rfl

theorem position?_eq_none_iff (hs : s.CacheExact) {offset : Nat} :
    s.position? offset = none ↔ ¬ IsBoundary (min offset (byteLength s.input)) s.input := by
  constructor
  · intro h hboundary
    rw [position?_of_isBoundary hs rfl hboundary] at h
    cases h
  · intro hboundary
    cases h : s.position? offset with
    | none => rfl
    | some r => exact absurd (isBoundary_of_position? h) hboundary

theorem CacheExact.ofOffset {o : Nat} (hboundary : IsBoundary o s.input) :
    CacheExact { s with cache := (o, .ofOffset s.input o) } :=
  ⟨hboundary, rfl⟩

/-- Computing a position keeps the cache exact. -/
theorem CacheExact.position? (hs : s.CacheExact) {offset : Nat} {p : Position}
    (h : s.position? offset = some (p, s')) : s'.CacheExact := by
  have hboundary := isBoundary_of_position? h
  rw [position?_of_isBoundary hs rfl hboundary] at h
  cases h
  exact .ofOffset hboundary

theorem location?_of_isBoundary (hs : s.CacheExact) {start stop : Nat}
    (hstart : IsBoundary start s.input) (hstop : IsBoundary stop s.input) :
    s.location? start stop =
      some (⟨.ofOffset s.input start, .ofOffset s.input stop⟩,
        { s with cache := (stop, .ofOffset s.input stop) }) := by
  rw [location?, position?_of_isBoundary hs (Nat.min_eq_left hstart.le_byteLength) hstart]
  show Option.map _ (State.position? stop _) = _
  rw [position?_of_isBoundary (.ofOffset hstart) (Nat.min_eq_left hstop.le_byteLength) hstop]
  rfl

/-- The error at a boundary covers the character that stands there. -/
theorem error?_of_split (hs : s.CacheExact) {before rest : List Char} {stop : Nat}
    (hinput : s.input = before ++ rest) (hpos : byteLength before = s.furthest.pos)
    (hstop : s.furthest.pos + byteLength rest.head?.toList = stop) :
    ∃ log, s.error? = some
      (.ofFailure s.furthest.expected.toList (rest.head?.map String.singleton)
        ⟨.ofOffset s.input s.furthest.pos, .ofOffset s.input stop⟩,
      { s with cache := (stop, .ofOffset s.input stop), log := log }) := by
  have hrest : dropBytes? s.furthest.pos s.input = some rest :=
    dropBytes?_eq_some_iff.2 ⟨before, hinput, hpos⟩
  have hlocation := location?_of_isBoundary hs ⟨before, rest, hinput, hpos⟩
    (isBoundary_after_head hinput hpos)
  rw [hstop] at hlocation
  simp only [error?, hrest, Option.bind_some, hstop, hlocation, Option.map_some]
  exact ⟨_, rfl⟩

end State

/-- The error at a furthest failure, with its location counted from the start of the input. -/
def Furthest.error (f : Furthest) (input : List Char) : SyntaxError :=
  let found := ((dropBytes? f.pos input).getD []).head?
  .ofFailure f.expected.toList (found.map String.singleton)
    ⟨.ofOffset input f.pos, .ofOffset input (f.pos + byteLength found.toList)⟩

theorem Furthest.error_of_split {f : Furthest} {input before rest : List Char}
    (hinput : input = before ++ rest) (hpos : byteLength before = f.pos) :
    f.error input = .ofFailure f.expected.toList (rest.head?.map String.singleton)
      ⟨.ofOffset input f.pos, .ofOffset input (f.pos + byteLength rest.head?.toList)⟩ := by
  rw [error, dropBytes?_eq_some_iff.2 ⟨before, hinput, hpos⟩, Option.getD_some]

/-! ## Reports to the tracer -/

section Reports

variable {τ V : Type} [Tracer τ V] {s : State τ} {start stop : Nat}

/-- The verdict of a tracer as the result of an action. -/
def Reply.result (r : Reply τ) : Except Halt Unit :=
  r.verdict.mapError .refused

/-- A tracer is told of the location if there is one. -/
theorem runFrom_report_base {m : Type → Type} [Monad m] [LawfulMonad m] {tracer : τ}
    (htracer : s.tracer = some tracer) (start stop : Nat) (event : Location → Event V) :
    runFrom s (report start stop event : ParseT τ m Unit) =
      pure (match s.location? start stop with
      | some (l, s') =>
          let reply := Tracer.trace tracer (event l)
          (reply.result, { s' with tracer := some reply.next, log := s'.log ++ reply.notes })
      | none => (.error .badOffset, s)) := by
  rw [report, runFrom_bind_base, runFrom_get_base, pure_bind]
  dsimp only
  rw [State.isTracing, htracer, Option.isSome_some, if_pos rfl, runFrom_bind_base, location,
    runFrom_ofStep_base, pure_bind]
  cases h : s.location? start stop with
  | none => rfl
  | some r =>
      obtain ⟨l, s'⟩ := r
      obtain ⟨cache, rfl⟩ := State.location?_cases h
      dsimp only
      rw [ParseT.tell, runFrom_bind_base, runFrom_get_base, pure_bind]
      dsimp only
      rw [htracer]
      dsimp only
      rw [runFrom_bind_base, runFrom_modify_base, pure_bind, Reply.result]
      cases (Tracer.trace tracer (event l)).verdict with
      | ok => rfl
      | error e => rfl

/-- A tracer is told of the location counted from the start. -/
theorem runFrom_report_of_tracer (hs : s.CacheExact) {tracer : τ} (htracer : s.tracer = some tracer)
    (hstart : IsBoundary start s.input) (hstop : IsBoundary stop s.input)
    (event : Location → Event V) :
    runFrom s (report start stop event : ParseM τ Unit) =
      let reply := Tracer.trace tracer
        (event ⟨.ofOffset s.input start, .ofOffset s.input stop⟩)
      (reply.result, { s with
        cache := (stop, .ofOffset s.input stop)
        tracer := some reply.next
        log := s.log ++ reply.notes }) := by
  rw [runFrom_report_base htracer, State.location?_of_isBoundary hs hstart hstop]
  rfl

end Reports

end PegGen
