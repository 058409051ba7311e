import PegGen.Proofs.Js.Correspondence
import PegGen.Proofs.Js.Generation
import PegGen.Proofs.Parse.Refinement
import PegGen.Proofs.Parse.Silencers

/-!
# Generated parsers do what their grammar says

The function that is generated for a rule and the evaluation of the rule go through the same states
and give the same value, on ASCII input, for a grammar whose literals and class parts are ASCII.

For each shape of expression its code agrees with its evaluation if the code of its parts does, so
the code of every expression does (`simulated`).  Calls and rule invocations take their fuel in
step, so that the two run out of it together (`call_agrees`).
-/

namespace PegGen.Js

open ParseT Expression

variable {τ : Type} {p : Program} {call : String → ParseM τ (Option Tree)}
  {callJs : String → Memory → Except Crash (Value × Memory)} {s : State τ} {f : Frame}
  {start target n : Nat}

/-! ## Failures and leaves -/

/-- A failure is reported in step. -/
theorem exec_reportFailure (callJs : String → Memory → Except Crash (Value × Memory)) (f : Frame)
    {e : Expectation} {c : Nat} (hs : Corresponds p s f.memory)
    (hc : p.constants.indexOf? e = some c) :
    ∃ m, Stmt.exec p callJs (reportFailure c) f = .ok ⟨f.registers, m⟩ ∧
      Corresponds p (s.fail e) m := by
  rw [reportFailure, Stmt.exec_branch (b := f.memory.silencers = 0) rfl, State.fail]
  by_cases hsilencers : s.silencers = 0
  · have hzero : f.memory.silencers = 0 := by rw [hs.silencers, hsilencers]; rfl
    rw [if_pos hsilencers, if_pos (decide_eq_true hzero), Stmt.execAll_singleton]
    exact ⟨_, rfl, hs.record hc⟩
  · have hzero : f.memory.silencers ≠ 0 := by
      rw [hs.silencers]
      exact fun h => hsilencers (Int.ofNat.inj h)
    rw [if_neg hsilencers, if_neg (by simpa using hzero)]
    exact ⟨_, rfl, hs⟩

/-- A leaf whose test, value and move are right for its expectation. -/
theorem leafCode_agrees {e : Expectation} {c : Nat} {test : Test} {value : Expr} {move : Stmt}
    (hs : Corresponds p s f.memory) (hc : p.constants.indexOf? e = some c)
    (htarget : target < f.registers.length)
    (htest : test.holds p f = .ok (e.matched? (s.input.drop s.pos)).isSome)
    (hvalue : ∀ taken, e.matched? (s.input.drop s.pos) = some taken →
      value.run p callJs f = .ok (.text (Text.units taken), f.memory))
    (hmove : ∀ taken registers, e.matched? (s.input.drop s.pos) = some taken →
      move.exec p callJs ⟨registers, f.memory⟩ =
        .ok ⟨registers, f.memory.at (s.pos + taken.length)⟩) :
    CodeAgrees p s.pos target n f (leafRun e s)
      (Stmt.execAll p callJs (leafCode target c test value move) f) := by
  rw [leafCode, Stmt.execAll_singleton, Stmt.exec_branch htest, leafRun, State.consume?, hs.rest?,
    Option.map_some]
  dsimp only
  cases htaken : e.matched? (s.input.drop s.pos) with
  | none =>
      rw [if_neg (by simp), Stmt.execAll_cons, Stmt.exec_assign_register rfl htarget]
      obtain ⟨m, hm, hfail⟩ :=
        exec_reportFailure callJs ⟨f.registers.set target .failed, f.memory⟩ hs hc
      refine .inr ⟨none, _, _, rfl, (Stmt.execAll_singleton _).trans hm, ?_⟩
      exact .ofWrite hfail (fun _ => State.pos_fail e s) htarget
  | some taken =>
      rw [if_pos (by simp), Stmt.execAll_cons,
        Stmt.exec_assign_register (hvalue taken htaken) htarget]
      obtain ⟨r, hr⟩ := Expectation.exists_append_of_matched? htaken
      have hlength : taken.length ≤ s.input.length - s.pos := by
        rw [← List.length_drop, hr, List.length_append]
        exact Nat.le_add_right ..
      have hascii : Text.IsAscii taken := (hs.ascii.drop s.pos).mono (by
        rw [hr]
        exact List.subset_append_left ..)
      have hpos := hs.pos_le
      dsimp only
      rw [Text.byteLength_of_isAscii hascii]
      refine .inr ⟨_, _, _, rfl, (Stmt.execAll_singleton _).trans (hmove taken _ htaken), ?_⟩
      have hvalue' : Value.text (Text.units taken) =
          .ofResult (some (.leaf (String.ofList taken))) := by
        rw [Value.ofResult, Value.ofTree, String.toList_ofList]
      rw [hvalue']
      exact .ofValue (hs.goTo (by omega)) htarget

/-! ## Expressions -/

/-- The code of an expression does what its evaluation does. -/
def Simulated (p : Program) (call : String → ParseM τ (Option Tree))
    (callJs : String → Memory → Except Crash (Value × Memory)) (e : Expression) : Prop :=
  ∀ {target n n' : Nat} {code : List Stmt},
    (expressionCode p.constants target e).run n = .ok (code, n') → target < n →
    ∀ {s : State τ} {f : Frame}, Corresponds p s f.memory → n' ≤ f.registers.length →
      CodeAgrees p s.pos target n f (runFrom s (e.eval call)) (Stmt.execAll p callJs code f)

theorem denoted?_quote_stringEscape {text : String} (h : ¬ DigitAfterNul text.toList) :
    denoted? (quote (stringEscape text)) = some (Text.units text.toList) :=
  (denoted?_stringLiteral text).1 h

theorem simulated_literal {value : String} {ignoreCase : Bool}
    (hvalue : Text.IsAscii value.toList)
    (hquotable : (Expectation.literal value ignoreCase).Quotable) :
    Simulated p call callJs (.literal value ignoreCase) := by
  intro target n n' code hcode htarget s f hs hlength
  have hmove : ∀ (taken : List Char) (registers : List Value),
      taken.length = value.toList.length →
      Stmt.exec p callJs
          (.assign .position (.positionPlus (Text.units value.toList).length))
          ⟨registers, f.memory⟩ =
        .ok ⟨registers, f.memory.at (s.pos + taken.length)⟩ := by
    intro taken registers htaken
    rw [Stmt.exec_assign rfl, Text.length_units hvalue, htaken, ← hs.pos]
    rfl
  rw [runFrom_eval_literal]
  cases ignoreCase with
  | false =>
      obtain ⟨c, hc, rfl, rfl⟩ := expressionCode_literal_iff.1 hcode
      have hmatched := matched?_literal hvalue (hs.ascii.drop s.pos)
      have hdenoted := denoted?_quote_stringEscape hquotable
      refine leafCode_agrees hs hc (by omega) ?_ ?_ ?_
      · rw [Test.holds, hdenoted]
        dsimp only
        rw [hs.slice, Text.length_units hvalue, hmatched]
        split <;> simp [*]
      · intro taken htaken
        rw [hmatched] at htaken
        split at htaken
        · rw [Expr.run, hdenoted, Option.some.inj htaken]
        · cases htaken
      · intro taken registers htaken
        rw [hmatched] at htaken
        split at htaken
        · exact hmove taken registers (by rw [Option.some.inj htaken])
        · cases htaken
  | true =>
      obtain ⟨c, hc, rfl, rfl⟩ := expressionCode_literalIgnoringCase_iff.1 hcode
      have hmatched := matched?_literalIgnoringCase hvalue (hs.ascii.drop s.pos)
      have hlower : ¬ DigitAfterNul (String.ofList (Text.lower value.toList)).toList := by
        rw [String.toList_ofList, digitAfterNul_lower_iff hvalue]
        exact hquotable
      refine leafCode_agrees hs hc (by omega) ?_ ?_ ?_
      · rw [Test.holds, denoted?_quote_stringEscape hlower]
        dsimp only
        rw [hs.slice, Text.length_units hvalue, hmatched, String.toList_ofList]
        split <;> simp [*]
      · intro taken htaken
        rw [hmatched] at htaken
        split at htaken
        · rw [Expr.run, hs.slice, Text.length_units hvalue, Option.some.inj htaken]
        · cases htaken
      · intro taken registers htaken
        refine hmove taken registers ?_
        rw [Expectation.matched?, Expectation.matchIgnoringCase?] at htaken
        split at htaken
        next h => rw [← Option.some.inj htaken, h.1]
        · cases htaken

/-- A leaf that takes one character. -/
theorem charCode_agrees {e : Expectation} {c : Nat} {test : Test} (hs : Corresponds p s f.memory)
    (hc : p.constants.indexOf? e = some c) (htarget : target < f.registers.length)
    (htest : test.holds p f = .ok (e.matched? (s.input.drop s.pos)).isSome)
    (hchar : ∀ taken, e.matched? (s.input.drop s.pos) = some taken →
      ∃ d, (s.input.drop s.pos).head? = some d ∧ taken = [d]) :
    CodeAgrees p s.pos target n f (leafRun e s)
      (Stmt.execAll p callJs (leafCode target c test .char .advance) f) := by
  refine leafCode_agrees hs hc htarget htest ?_ ?_
  · intro taken htaken
    obtain ⟨d, hd, rfl⟩ := hchar taken htaken
    rw [Expr.run, hs.slice, List.take_one, hd]
    rfl
  · intro taken registers htaken
    obtain ⟨d, -, rfl⟩ := hchar taken htaken
    rw [Stmt.exec, hs.pos]
    rfl

theorem simulated_charClass {k : CharClass} (hk : (Expectation.charClass k).IsAscii) :
    Simulated p call callJs (.charClass k) := by
  intro target n n' code hcode htarget s f hs hlength
  obtain ⟨c, hc, rfl, rfl⟩ := expressionCode_charClass_iff.1 hcode
  have hascii := hs.ascii.drop s.pos
  rw [runFrom_eval_charClass]
  refine charCode_agrees hs hc (by omega) ?_ ?_
  · rw [Test.holds, OrderedSet.getElem?_of_indexOf? hc, hs.slice, List.take_one,
      Expectation.matched?]
    cases hrest : s.input.drop s.pos with
    | nil => rfl
    | cons d rest =>
        have hd : d.toNat < 128 := hascii d (by rw [hrest]; exact .head _)
        rw [List.head?_cons, Option.toList_some, Option.bind_some, matchesClass_units hk hd]
        cases haccepts : k.accepts d <;> simp [Option.filter, haccepts]
  · intro taken htaken
    obtain ⟨d, hd, rfl⟩ := Option.map_eq_some_iff.1 htaken
    exact ⟨d, (Option.filter_eq_some_iff.1 hd).1, rfl⟩

theorem simulated_any : Simulated p call callJs .any := by
  intro target n n' code hcode htarget s f hs hlength
  obtain ⟨c, hc, rfl, rfl⟩ := expressionCode_any_iff.1 hcode
  rw [runFrom_eval_any]
  refine charCode_agrees hs hc (by omega) ?_ ?_
  · rw [Test.holds, hs.pos, hs.length_input, Expectation.matched?, Option.isSome_map,
      List.head?_drop]
    exact congrArg Except.ok (Bool.eq_iff_iff.2 (by simp))
  · intro taken htaken
    obtain ⟨d, hd, rfl⟩ := Option.map_eq_some_iff.1 htaken
    exact ⟨d, hd, rfl⟩

/-- A reference is as good as the call that it makes. -/
theorem simulated_ref {name : String} {location : Location}
    (hcall : ∀ {s : State τ} {m : Memory}, Corresponds p s m →
      Agrees p s.pos (runFrom s (call name)) (callJs name m)) :
    Simulated p call callJs (.ref name location) := by
  intro target n n' code hcode htarget s f hs hlength
  obtain ⟨rfl, rfl⟩ := expressionCode_ref_iff.1 hcode
  rw [runFrom_eval_ref, Stmt.execAll_singleton]
  rcases hcall hs with ⟨s', hr, hx⟩ | ⟨result, s', m, hr, hx, hm, hpos⟩
  · refine .inl ⟨s', hr, ?_⟩
    rw [Stmt.exec, Expr.run, hx]
    rfl
  · have hinvoke : Expr.run p callJs f (.invoke name) = .ok (.ofResult result, m) := hx
    rw [Stmt.exec_assign_register hinvoke (by omega)]
    exact .inr ⟨result, s', _, hr, rfl, .ofWrite hm hpos (by omega)⟩

/-! ## Sequences -/

/-- The items of a sequence after items that gave some values. -/
def afterValues (values : List Tree) :
    Except Halt (Option (List Tree)) × State τ → Except Halt (Option (List Tree)) × State τ
  | (.ok rest, s) => (.ok (rest.map (values ++ ·)), s)
  | (.error halt, s) => (.error halt, s)

theorem afterValues_nil (r : Except Halt (Option (List Tree)) × State τ) :
    afterValues [] r = r := by
  rcases r with ⟨halt | values, s⟩
  · rfl
  · cases values with
    | none => rfl
    | some values => rfl

theorem afterValues_consResult (values : List Tree) (value : Tree)
    (r : Except Halt (Option (List Tree)) × State τ) :
    afterValues values (consResult value r) = afterValues (values ++ [value]) r := by
  rcases r with ⟨halt | rest, s⟩
  · rfl
  · cases rest with
    | none => rfl
    | some rest =>
        show (_, s) = (_, s)
        simp

/-- Give up a sequence that began at `start`. -/
theorem giveUp_agrees {saved : Nat} (hs : Corresponds p s f.memory)
    (hstart : start ≤ p.input.length)
    (hsaved : f.registers[saved]? = some (.number start)) (htarget : target < f.registers.length) :
    ∃ f', Stmt.execAll p callJs (giveUp target saved) f = .ok f' ∧
      Ended p start target n f none (s.at start) f' := by
  have hposition : Expr.run p callJs f (.register saved) = .ok (.number start, f.memory) := by
    rw [Expr.run, Frame.read_of_getElem? hsaved]
    rfl
  refine ⟨_, ?_, .ofWrite (hs.goTo (hs.length_input ▸ hstart)) (fun _ => rfl) htarget⟩
  rw [giveUp, Stmt.execAll_cons, Stmt.exec_assign hposition]
  show Stmt.execAll p callJs _ _ = _
  rw [Stmt.execAll_singleton]
  exact Stmt.exec_assign_register rfl htarget

/-- The code of the items of a sequence.  The position where the sequence began is in `saved`, and
the values of the items before are in the registers `done`.  Both lists grow with every item, so the
registers of all values so far have to be kept. -/
theorem itemsCode_agrees {es : List Expression} (h : ∀ e ∈ es, Simulated p call callJs e)
    {saved n' : Nat} {done : List Nat} {values : List Tree} {code : List Stmt}
    (hcode : (itemsCode p.constants target saved done es).run n = .ok (code, n'))
    (htarget : target < n) (hsaved : saved < n) (hdone : ∀ k ∈ done, k < n)
    (hs : Corresponds p s f.memory) (hlength : n' ≤ f.registers.length)
    (hstart : start ≤ p.input.length) (hposition : f.registers[saved]? = some (.number start))
    (hvalues : done.map (f.registers[·]?) = (Value.ofTrees values).map some) :
    CodeAgrees p start target n f
      (seqResult start (afterValues values (runFrom s (evalAll call es))))
      (Stmt.execAll p callJs code f) := by
  have hle := le_of_itemsCode (fun _ _ => le_of_expressionCode) hcode
  induction es generalizing s f n done values code with
  | nil =>
      obtain ⟨rfl, rfl⟩ := itemsCode_nil_iff.1 hcode
      have harray : Expr.run p callJs f (.array done) =
          .ok (.ofResult (some (.node values)), f.memory) := by
        rw [Expr.run, Frame.mapM_read hvalues]
        rfl
      rw [runFrom_evalAll_nil, Stmt.execAll_singleton,
        Stmt.exec_assign_register harray (by omega)]
      refine .inr ⟨some (.node values), s, _, ?_, rfl,
        .ofValue hs (by omega)⟩
      simp [afterValues, seqResult]
  | cons e es ih =>
      obtain ⟨first, m, rest, hfirst, hrest, rfl⟩ := itemsCode_cons_iff.1 hcode
      have hle' := le_of_itemsCode (fun _ _ => le_of_expressionCode) hrest
      have hle₁ := le_of_expressionCode hfirst
      rw [runFrom_evalAll_cons, Stmt.execAll_append]
      rcases h e (.head _) hfirst (by omega) hs (by omega) with ⟨s', hr, hx⟩ |
        ⟨result, s', f', hr, hx, hended⟩
      · rw [hr, hx]
        exact .inl ⟨s', rfl, rfl⟩
      rw [hr, hx]
      have hkeeps : ∀ k < n, f'.registers[k]? = f.registers[k]? :=
        fun k hk => hended.keeps k (by omega) (by omega)
      have hposition' : f'.registers[saved]? = some (.number start) :=
        (hkeeps saved hsaved).trans hposition
      have htest := Test.holds_succeeded (p := p) hended.value
      show CodeAgrees _ _ _ _ _ _ (Stmt.execAll p callJs _ f')
      rw [Stmt.execAll_singleton, Stmt.exec_branch htest]
      cases result with
      | none =>
          have htarget' : target < f'.registers.length := by rw [hended.length]; omega
          obtain ⟨f'', hx', hended'⟩ :=
            giveUp_agrees hended.corresponds hstart hposition' htarget'
          refine .inr ⟨none, s'.at start, f'', rfl, hx', ?_⟩
          exact hended'.trans (Nat.le_refl n) hended.length fun k hk _ => hkeeps k hk
      | some value =>
          rw [Value.ofResult, Value.isFailed_ofTree, Bool.not_false, if_pos rfl,
            afterValues_consResult]
          refine (ih (fun e he => h e (.tail _ he)) hrest (by omega) (by omega) ?_
            hended.corresponds (by rw [hended.length]; exact hlength) hposition' ?_ hle').trans
            (by omega) hended.length fun k hk _ => hkeeps k hk
          · intro k hk
            rcases List.mem_append.1 hk with hk | hk
            · have := hdone k hk
              omega
            · rw [List.mem_singleton.1 hk]
              omega
          · have hbefore : done.map (f'.registers[·]?) = done.map (f.registers[·]?) :=
              List.map_congr_left fun k hk => hkeeps k (hdone k hk)
            rw [List.map_append, hbefore, hvalues, List.map_singleton, hended.value,
              Value.ofTrees_append, List.map_append]
            rfl

theorem simulated_seq {items : List Expression} (h : ∀ e ∈ items, Simulated p call callJs e) :
    Simulated p call callJs (.seq items) := by
  intro target n n' code hcode htarget s f hs hlength
  have hle := le_of_expressionCode hcode
  rw [runFrom_eval_seq]
  cases items with
  | nil =>
      obtain ⟨rfl, rfl⟩ := expressionCode_seq_nil_iff.1 hcode
      have harray : Expr.run p callJs f (.array []) = .ok (.ofResult (some (.node [])), f.memory) :=
        rfl
      rw [runFrom_evalAll_nil, Stmt.execAll_singleton,
        Stmt.exec_assign_register harray (by omega)]
      exact .inr ⟨some (.node []), s, _, rfl, rfl, .ofValue hs (by omega)⟩
  | cons e es =>
      obtain ⟨items, hitems, rfl⟩ := expressionCode_seq_cons_iff.1 hcode
      have hle' := le_of_itemsCode (fun _ _ => le_of_expressionCode) hitems
      have hposition : Expr.run p callJs f .position = .ok (.number s.pos, f.memory) := by
        rw [Expr.run, hs.pos]
      rw [Stmt.execAll_cons, Stmt.exec_assign_register hposition (by omega),
        ← afterValues_nil (runFrom s (evalAll call (e :: es)))]
      refine (itemsCode_agrees (f := ⟨f.registers.set n (.number s.pos), f.memory⟩) h hitems
        (by omega) (by omega) (fun _ hk => nomatch hk) hs ?_ ?_ ?_ rfl).trans
        (Nat.le_succ n) List.length_set fun k hk _ => List.getElem?_set_ne (by omega)
      · rw [List.length_set]
        exact hlength
      · rw [hs.length_input]
        exact hs.pos_le
      · exact List.getElem?_set_self (by omega)

/-! ## Choices -/

/-- Once there is a value, no further alternative is tried. -/
theorem alternativesCode_skips {es : List Expression} {n' : Nat} {code : List Stmt}
    (hcode : (alternativesCode p.constants target es).run n = .ok (code, n')) {v : Value}
    (hv : f.registers[target]? = some v) (hvalue : v.isFailed = false) :
    Stmt.execAll p callJs code f = .ok f := by
  cases es with
  | nil =>
      obtain ⟨rfl, rfl⟩ := alternativesCode_nil_iff.1 hcode
      rfl
  | cons e es =>
      obtain ⟨first, m, rest, -, -, rfl⟩ := alternativesCode_cons_iff.1 hcode
      rw [Stmt.execAll_singleton, Stmt.exec_branch (Test.holds_failed hv), hvalue]
      rfl

/-- The code of an alternative and of those after it. -/
theorem choiceCode_agrees {e : Expression} {es : List Expression}
    (he : Simulated p call callJs e) {n' m : Nat} {first rest : List Stmt}
    (hfirst : (expressionCode p.constants target e).run n = .ok (first, m))
    (hrest : (alternativesCode p.constants target es).run m = .ok (rest, n'))
    (htarget : target < n) (hs : Corresponds p s f.memory) (hlength : n' ≤ f.registers.length)
    (hes : ∀ {s : State τ} {f : Frame}, Corresponds p s f.memory → n' ≤ f.registers.length →
      f.registers[target]? = some .failed →
      CodeAgrees p s.pos target m f (runFrom s (evalFirst call es))
        (Stmt.execAll p callJs rest f)) :
    CodeAgrees p s.pos target n f (runFrom s (evalFirst call (e :: es)))
      (Stmt.execAll p callJs (first ++ rest) f) := by
  have hle := le_of_expressionCode hfirst
  have hle' := le_of_alternativesCode (fun _ _ => le_of_expressionCode) hrest
  rw [runFrom_evalFirst_cons, Stmt.execAll_append]
  rcases he hfirst htarget hs (by omega) with ⟨s', hr, hx⟩ | ⟨result, s', f', hr, hx, hended⟩
  · rw [hr, hx]
    exact .inl ⟨s', rfl, rfl⟩
  rw [hr, hx]
  show CodeAgrees _ _ _ _ _ _ (Stmt.execAll p callJs rest f')
  cases result with
  | none =>
      have hstart : s'.pos = s.pos := hended.pos rfl
      rw [← hstart]
      exact (hes hended.corresponds (by rw [hended.length]; exact hlength) hended.value).trans
        hle hended.length hended.keeps
  | some value =>
      rw [alternativesCode_skips hrest hended.value (Value.isFailed_ofTree value)]
      exact .inr ⟨some value, s', f', rfl, rfl, hended⟩

theorem alternativesCode_agrees {es : List Expression} (h : ∀ e ∈ es, Simulated p call callJs e)
    {n' : Nat} {code : List Stmt}
    (hcode : (alternativesCode p.constants target es).run n = .ok (code, n'))
    (htarget : target < n) (hs : Corresponds p s f.memory) (hlength : n' ≤ f.registers.length)
    (hfailed : f.registers[target]? = some .failed) :
    CodeAgrees p s.pos target n f (runFrom s (evalFirst call es))
      (Stmt.execAll p callJs code f) := by
  induction es generalizing s f n code with
  | nil =>
      obtain ⟨rfl, rfl⟩ := alternativesCode_nil_iff.1 hcode
      rw [runFrom_evalFirst_nil]
      exact .inr ⟨none, s, f, rfl, rfl, hs, fun _ => rfl, hfailed, rfl, fun _ _ _ => rfl⟩
  | cons e es ih =>
      obtain ⟨first, m, rest, hfirst, hrest, rfl⟩ := alternativesCode_cons_iff.1 hcode
      rw [Stmt.execAll_singleton, Stmt.exec_branch (Test.holds_failed hfailed)]
      have hle := le_of_expressionCode hfirst
      exact choiceCode_agrees (h e (.head _)) hfirst hrest htarget hs hlength fun hs hlength =>
        ih (fun e he => h e (.tail _ he)) hrest (by omega) hs hlength

theorem simulated_choice {items : List Expression} (h : ∀ e ∈ items, Simulated p call callJs e) :
    Simulated p call callJs (.choice items) := by
  intro target n n' code hcode htarget s f hs hlength
  rw [runFrom_eval_choice]
  cases items with
  | nil =>
      obtain ⟨rfl, rfl⟩ := expressionCode_choice_nil_iff.1 hcode
      have hfailure : Expr.run p callJs f .failure = .ok (.ofResult none, f.memory) := rfl
      rw [runFrom_evalFirst_nil, Stmt.execAll_singleton,
        Stmt.exec_assign_register hfailure (by omega)]
      exact .inr ⟨none, s, _, rfl, rfl, .ofWrite hs (fun _ => rfl) (by omega)⟩
  | cons e es =>
      obtain ⟨first, m, rest, hfirst, hrest, rfl⟩ := expressionCode_choice_cons_iff.1 hcode
      have hle := le_of_expressionCode hfirst
      exact choiceCode_agrees (h e (.head _)) hfirst hrest htarget hs hlength fun hs hlength =>
        alternativesCode_agrees (fun e he => h e (.tail _ he)) hrest (by omega) hs hlength

/-! ## Display names -/

theorem simulated_named {name : String} {body : Expression}
    (hbody : Simulated p call callJs body) (hbalanced : Balanced (body.eval call)) :
    Simulated p call callJs (.named name body) := by
  intro target n n' code hcode htarget s f hs hlength
  obtain ⟨inner, c, hinner, hc, rfl⟩ := expressionCode_named_iff.1 hcode
  have hsilencers := hbalanced s.silence
  rw [runFrom_eval_named, Stmt.execAll_cons, Stmt.exec]
  show CodeAgrees _ _ _ _ _ _ (Stmt.execAll p callJs _ ⟨f.registers, f.memory.silence⟩)
  rw [Stmt.execAll_append]
  rcases hbody (f := ⟨f.registers, f.memory.silence⟩) hinner htarget hs.silence hlength with
    ⟨s', hr, hx⟩ | ⟨result, s', f', hr, hx, hended⟩
  · rw [hr, hx]
    exact .inl ⟨_, rfl, rfl⟩
  rw [hr] at hsilencers
  have hunsilenced := hended.corresponds.unsilence (by rw [hsilencers]; exact Nat.succ_pos _)
  have htest : (Test.failed target).holds p ⟨f'.registers, f'.memory.unsilence⟩ =
      .ok (Value.ofResult result).isFailed := Test.holds_failed hended.value
  rw [hr, hx]
  show CodeAgrees _ _ _ _ _ _ (Stmt.execAll p callJs _ f')
  rw [Stmt.execAll_cons, Stmt.exec]
  show CodeAgrees _ _ _ _ _ _ (Stmt.execAll p callJs _ ⟨f'.registers, f'.memory.unsilence⟩)
  rw [Stmt.execAll_singleton, Stmt.exec_branch htest]
  cases result with
  | none =>
      obtain ⟨m, hm, hfail⟩ := exec_reportFailure callJs ⟨f'.registers, _⟩ hunsilenced hc
      refine .inr ⟨none, _, _, rfl, (Stmt.execAll_singleton _).trans hm, hfail, fun _ => ?_,
        hended.value, hended.length, hended.keeps⟩
      rw [State.pos_fail]
      exact hended.pos rfl
  | some value =>
      rw [Value.ofResult, Value.isFailed_ofTree]
      exact .inr ⟨some value, _, _, rfl, rfl, hunsilenced,
        fun h => absurd h (Option.some_ne_none value), hended.value, hended.length, hended.keeps⟩

/-! ## All expressions -/

/-- The code of an expression does what its evaluation does, if calls do what rule invocations
do. -/
theorem simulated {e : Expression} (hascii : ∀ x ∈ e.expectations, x.IsAscii)
    (hquotable : ∀ x ∈ e.expectations, x.Quotable) (hbalanced : ∀ name, Balanced (call name))
    (hcall : ∀ name, e.RefersTo name → ∀ {s : State τ} {m : Memory}, Corresponds p s m →
      Agrees p s.pos (runFrom s (call name)) (callJs name m)) :
    Simulated p call callJs e := by
  induction e using Expression.induct with
  | literal value ignoreCase =>
      exact simulated_literal (hascii _ (.head _)) (hquotable _ (.head _))
  | charClass k => exact simulated_charClass (hascii _ (.head _))
  | any => exact simulated_any
  | ref name location => exact simulated_ref (hcall name .ref)
  | seq items ih =>
      rw [expectations_seq] at hascii hquotable
      exact simulated_seq fun e he =>
        ih e he (fun x hx => hascii x (List.mem_flatMap.2 ⟨e, he, hx⟩))
          (fun x hx => hquotable x (List.mem_flatMap.2 ⟨e, he, hx⟩))
          fun name hname => hcall name (.seq he hname)
  | choice items ih =>
      rw [expectations_choice] at hascii hquotable
      exact simulated_choice fun e he =>
        ih e he (fun x hx => hascii x (List.mem_flatMap.2 ⟨e, he, hx⟩))
          (fun x hx => hquotable x (List.mem_flatMap.2 ⟨e, he, hx⟩))
          fun name hname => hcall name (.choice he hname)
  | named name body ih =>
      exact simulated_named
        (ih (fun x hx => hascii x (.tail _ hx)) (fun x hx => hquotable x (.tail _ hx))
          fun name hname => hcall name (.named hname))
        (Balanced.eval hbalanced body)

/-! ## Programs -/

/-- The functions have the names of the rules, in their order. -/
theorem map_rule_of_forall₂ {pool : OrderedSet Expectation} {trace : Bool} {rules : List Rule}
    {routines : List Routine} (h : List.Forall₂ (RoutineFor pool trace) rules routines) :
    routines.map (·.rule) = rules.map (·.name) := by
  induction h with
  | nil => rfl
  | cons hfn _ ih =>
      obtain ⟨registers, code, -, rfl⟩ := hfn
      rw [List.map_cons, List.map_cons, ih]
      rfl

/-- Every rule has a function, which is found under its name. -/
theorem exists_function? {g : Grammar} (hnames : g.ruleNames.Nodup) {trace : Bool}
    (hfunctions : List.Forall₂ (RoutineFor p.constants trace) g.rules p.functions) {r : Rule}
    (hr : r ∈ g.rules) :
    ∃ fn, p.function? r.name = some fn ∧ RoutineFor p.constants trace r fn := by
  obtain ⟨fn, hfn, hgenerated⟩ := exists_mem_of_forall₂ hfunctions r hr
  refine ⟨fn, ?_, hgenerated⟩
  have hkeys : (p.functions.reverse.map (·.rule)).Nodup := by
    rw [List.map_reverse, List.nodup_reverse, map_rule_of_forall₂ hfunctions]
    exact hnames
  have hname : fn.rule = r.name := by
    obtain ⟨registers, code, -, rfl⟩ := hgenerated
    rfl
  rw [← hname]
  exact find?_key hkeys (List.mem_reverse.2 hfn)

/-- The literals in the functions denote something exactly if the grammar's can be written. -/
theorem literals_denote_iff {g : Grammar} {pool : OrderedSet Expectation} (hascii : g.IsAscii)
    {routines : List Routine} (h : List.Forall₂ (RoutineFor pool false) g.rules routines) :
    (routines.all fun f => f.literals.all fun literal => (denoted? (quote literal)).isSome) = true ↔
      g.Quotable := by
  have hroutine : ∀ r fn, RoutineFor pool false r fn → ∀ literal,
      literal ∈ fn.literals ↔ .quotes literal ∈ r.expression.mentions := by
    rintro r _ ⟨registers, code, hcode, rfl⟩ literal
    rw [Routine.mem_literals_iff, ← (names_expressionCode hcode).quotes_mem_iff]
    simp [Routine.mentions, routineOf]
  simp only [List.all_eq_true]
  constructor
  · intro hall x hx
    obtain ⟨r, hr, hmem⟩ := List.mem_flatMap.1 hx
    obtain ⟨fn, hfn, hgenerated⟩ := exists_mem_of_forall₂ h r hr
    cases x with
    | literal value ignoreCase =>
        rw [← isSome_denoted?_comparedLiteral_iff (hascii _ hx)]
        refine hall fn hfn _ ((hroutine r fn hgenerated _).2 ?_)
        exact quotes_mem_mentions_iff.2 ⟨value, ignoreCase, hmem, rfl⟩
    | charClass | any | endOfInput | other => trivial
  · intro hquotable fn hfn literal hliteral
    obtain ⟨r, hr, hgenerated⟩ := exists_mem_of_forall₂ h.flip fn hfn
    obtain ⟨value, ignoreCase, hmem, rfl⟩ :=
      quotes_mem_mentions_iff.1 ((hroutine r fn hgenerated _).1 hliteral)
    have hx : .literal value ignoreCase ∈ g.expectations := List.mem_flatMap.2 ⟨r, hr, hmem⟩
    exact (isSome_denoted?_comparedLiteral_iff (hascii _ hx) ignoreCase).2 (hquotable _ hx)

variable [Tracer τ Tree] {g : Grammar}

/-- A call does what the rule invocation does. -/
theorem call_agrees (hg : g.WellFormed) (hascii : g.IsAscii) (hquotable : g.Quotable)
    (hfunctions : List.Forall₂ (RoutineFor p.constants false) g.rules p.functions) (fuel : Nat)
    {name : String} (hname : name ∈ g.ruleNames) {s : State τ} {m : Memory}
    (hs : Corresponds p s m) :
    Agrees p s.pos (runFrom s (g.evalRule fuel name)) (p.call fuel name m) := by
  induction fuel generalizing name s m with
  | zero => exact .inl ⟨s, rfl, rfl⟩
  | succ fuel ih =>
      obtain ⟨r, hr, rfl⟩ := Grammar.mem_ruleNames.1 hname
      obtain ⟨fn, hfn, registers, code, hcode, rfl⟩ := exists_function? hg.names_nodup hfunctions hr
      have hbody : Simulated p (g.evalRule fuel) (p.call fuel) r.expression :=
        simulated (fun x hx => hascii x (List.mem_flatMap.2 ⟨r, hr, hx⟩))
          (fun x hx => hquotable x (List.mem_flatMap.2 ⟨r, hr, hx⟩))
          (g.balanced_evalRule fuel)
          fun x hx _ _ => ih (hg.refs_defined x ⟨r, hr, hx⟩)
      have htracer := (RefinedBy.eval (g.evalRule_refinedBy_succ fuel) r.expression s
        hs.untraced).1
      have hdeclared : (routineOf false r.name registers code).declared =
          List.range (routineOf false r.name registers code).declared.length := by
        simp [routineOf]
      have hstmts : (routineOf false r.name registers code).body = code := by
        simp [routineOf]
      rw [Grammar.evalRule, Grammar.rule?_name hg.names_nodup hr, Program.call, hfn]
      dsimp only
      rw [runFrom_rule hs.untraced _ _ htracer, if_pos hdeclared, hstmts]
      rcases hbody hcode Nat.one_pos
        (f := ⟨(routineOf false r.name registers code).declared.map fun _ => .undefined, m⟩) hs
        (by simp [routineOf]) with
        ⟨s', hr, hx⟩ | ⟨result, s', f', hr, hx, hended⟩
      · rw [hr, hx]
        exact .inl ⟨s', rfl, rfl⟩
      · rw [hr, hx]
        refine .inr ⟨result, s', f'.memory, ?_, ?_, hended.corresponds, hended.pos⟩
        · cases result with
          | none =>
              have hback : s'.pos = s.pos := hended.pos rfl
              rw [closeRule, ← hback]
              rfl
          | some value => rfl
        · show (f'.read 0 >>= fun v => Except.ok (v, f'.memory)) = _
          rw [Frame.read_of_getElem? hended.value]
          rfl

/-- A program is loaded from the functions exactly if the grammar's literals can be written. -/
theorem load?_eq_some_iff {functions : List RuleFunction} (hascii : g.IsAscii)
    (hfunctions : g.rules.mapM (RuleFunction.generate g.pool) = .ok functions) {input : List Nat}
    {p : Program} :
    Program.load? input g.pool (functions.map (·.ops false)) = some p ↔
      g.Quotable ∧ p.input = input ∧ p.constants = g.pool ∧
        (functions.map (·.ops false)).mapM Routine.read? = some p.functions := by
  obtain ⟨routines, hroutines, hall⟩ := exists_routines hfunctions false
  rw [Program.load?, hroutines]
  show (if _ then _ else _) = _ ↔ _
  by_cases hquotable : g.Quotable
  · rw [if_pos ((literals_denote_iff hascii hall).2 hquotable)]
    obtain ⟨input', constants, functions'⟩ := p
    simp only [Option.some.injEq, Program.mk.injEq, hquotable, true_and]
    grind
  · rw [if_neg fun h => hquotable ((literals_denote_iff hascii hall).1 h)]
    simp [hquotable]

/-- The functions of a grammar can be loaded exactly if no literal of it has a digit right after a
NUL.  Then from corresponding states, whenever the function of a rule or the evaluation of the rule
ends, both end, with the same value or failure and in corresponding states.  On failure the position
is back where it was. -/
theorem generated_agrees (hg : g.WellFormed) (hpool : g.pool = g.collectPool)
    (hascii : g.IsAscii) :
    ∃ functions, g.rules.mapM (RuleFunction.generate g.pool) = .ok functions ∧
      ∀ input : List Nat,
      ((Program.load? input g.pool (functions.map (·.ops false))).isSome ↔ g.Quotable) ∧
      ∀ p, Program.load? input g.pool (functions.map (·.ops false)) = some p →
      ∀ r ∈ g.rules, ∀ (s : State τ) (m : Memory), Corresponds p s m → ∀ fuel,
        (runFrom s (g.evalRule fuel r.name)).1 ≠ .error .outOfFuel ∨
          p.call fuel r.name m ≠ .error .outOfFuel →
        ∃ result s' m', runFrom s (g.evalRule fuel r.name) = (.ok result, s') ∧
          p.call fuel r.name m = .ok (.ofResult result, m') ∧ Corresponds p s' m' ∧
          (result = none → s'.pos = s.pos) := by
  have hcollected : ∀ r ∈ g.rules, ∀ x ∈ r.expression.expectations, x ∈ g.pool := by
    rw [hpool]
    exact fun r hr x hx => Grammar.mem_collectPool.2 (.inl ⟨r, hr, hx⟩)
  obtain ⟨functions, hfunctions⟩ := exists_mapM_generate hcollected
  obtain ⟨routines, hroutines, hall⟩ := exists_routines hfunctions false
  refine ⟨functions, hfunctions, fun input => ⟨?_, fun p hload r hr s m hs fuel hends => ?_⟩⟩
  · rw [Option.isSome_iff_exists]
    constructor
    · rintro ⟨p, hload⟩
      exact ((load?_eq_some_iff hascii hfunctions).1 hload).1
    · intro hquotable
      exact ⟨⟨input, g.pool, routines⟩,
        (load?_eq_some_iff hascii hfunctions).2 ⟨hquotable, rfl, rfl, hroutines⟩⟩
  · obtain ⟨hquotable, -, hconstants, hread⟩ := (load?_eq_some_iff hascii hfunctions).1 hload
    obtain rfl : routines = p.functions := Option.some.inj (hroutines.symm.trans hread)
    rw [← hconstants] at hall
    have hagrees := call_agrees hg hascii hquotable hall fuel
      (Grammar.mem_ruleNames.2 ⟨r, hr, rfl⟩) hs
    rcases hagrees with ⟨s', hrun, hcall⟩ | hagrees
    · rw [hrun, hcall] at hends
      rcases hends with hends | hends
      · exact absurd rfl hends
      · exact absurd rfl hends
    · exact hagrees

/-- A word in any case before a mark. -/
def greeting : Grammar :=
  let rules : List Rule :=
    [⟨"s", .seq [.ref "w" default, .choice [.literal "!" false,
        .named "mark" (.charClass ⟨[.char '.'], false, false⟩)]], default⟩,
      ⟨"w", .literal "hi" true, default⟩]
  { rules := rules, pool := Grammar.collectPool { rules := rules } }

theorem generated_agrees_greeting :
    ∃ functions, greeting.rules.mapM (RuleFunction.generate greeting.pool) = .ok functions ∧
      ∃ p, Program.load? (Text.units "Hi.".toList) greeting.pool (functions.map (·.ops false)) =
          some p ∧
      ∃ s' m', runFrom (State.init "Hi." (none : Option LineTracer)) (greeting.evalRule 2 "s") =
          (.ok (some (.node [.leaf "Hi", .leaf "."])), s') ∧
        p.call 2 "s" {} = .ok (.array [.text [72, 105], .text [46]], m') ∧ m'.pos = 3 := by
  obtain ⟨functions, hfunctions, h⟩ :=
    generated_agrees (τ := LineTracer) (g := greeting) (by decide) rfl (by decide)
  obtain ⟨hload, h⟩ := h (Text.units "Hi.".toList)
  obtain ⟨p, hp⟩ := Option.isSome_iff_exists.1 (hload.2 (by decide))
  obtain ⟨-, hinput, hconstants, -⟩ := (load?_eq_some_iff (by decide) hfunctions).1 hp
  have hs : Corresponds p (State.init "Hi." (none : Option LineTracer)) {} :=
    ⟨rfl, by decide, hinput, Nat.zero_le _, rfl, rfl, rfl, rfl⟩
  obtain ⟨result, s', m', hrun, hcall, hs', -⟩ := h p hp _ (.head _) _ _ hs 2 (.inl nofun)
  have hresult : some (.node [.leaf "Hi", .leaf "."]) = result :=
    Except.ok.inj (congrArg Prod.fst hrun)
  have hpos : 3 = s'.pos := congrArg (·.2.pos) hrun
  subst hresult
  exact ⟨functions, hfunctions, p, hp, s', m', hrun, hcall, hs'.pos.trans hpos.symm⟩

/-- A NUL and a digit. -/
def nulOne : Grammar :=
  let rules : List Rule := [⟨"s", .literal "\x001" false, default⟩]
  { rules := rules, pool := Grammar.collectPool { rules := rules } }

/-- The rule matches its own text, but its function is no program: the literal in it denotes
nothing. -/
theorem generated_disagrees_nulOne :
    (nulOne.WellFormed ∧ nulOne.pool = nulOne.collectPool ∧ nulOne.IsAscii) ∧
    (∃ functions, nulOne.rules.mapM (RuleFunction.generate nulOne.pool) = .ok functions ∧
      ∀ input, Program.load? input nulOne.pool (functions.map (·.ops false)) = none) ∧
    ∃ s', runFrom (State.init "\x001" (none : Option LineTracer)) (nulOne.evalRule 1 "s") =
      (.ok (some (.leaf "\x001")), s') ∧ s'.pos = 2 := by
  refine ⟨⟨by decide, rfl, by decide⟩, ?_, ⟨_, rfl, rfl⟩⟩
  have hcollected : ∀ r ∈ nulOne.rules, ∀ x ∈ r.expression.expectations, x ∈ nulOne.pool := by
    decide
  obtain ⟨functions, hfunctions⟩ := exists_mapM_generate hcollected
  refine ⟨functions, hfunctions, fun input => ?_⟩
  rw [Option.eq_none_iff_forall_ne_some]
  intro p hload
  have hquotable := ((load?_eq_some_iff (by decide) hfunctions).1 hload).1
  exact absurd hquotable (by decide)

end PegGen.Js
