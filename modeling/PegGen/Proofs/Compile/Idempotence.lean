import PegGen.Proofs.Compile.Outcome
import PegGen.Proofs.Grammar.Redirection

/-!
# Compiling once more

A compilation changes the grammar: proxies go away, references are led past them, the pool is
filled and the code is put in.  Compiling what it leaves, with the same options, gives the same code
and changes nothing any more (`compileDefault_compileDefault`).

The options are resolved against another grammar the second time.  They stand for the same start
rules, since a start rule is never removed (`Options.resolve_withoutProxies`).  The proxies that are
left are start rules that nothing refers to, so there is nothing to do about them.  The pool and the
code depend on the rules and the options only.
-/

namespace PegGen

/-- The options stand for the same start rules when the proxies are gone. -/
theorem Options.resolve_withoutProxies {o o' : Options} {g : Grammar} (hnames : g.ruleNames.Nodup)
    (h : o.resolve g = .ok o') : o.resolve (g.withoutProxies o'.startRules) = .ok o' := by
  obtain ⟨startRules, hstarts, rfl⟩ := resolve_eq_ok_iff.1 h
  obtain ⟨lead, visited, hled⟩ := Grammar.exists_led startRules hnames
  refine resolve_eq_ok_iff.2 ⟨startRules, ?_, rfl⟩
  rw [hled.ruleNames_withoutProxies]
  exact hstarts.filter fun r hr => by simp [hr]

/-- Of a finished grammar nothing more is removed. -/
theorem Grammar.withoutProxies_finished {g : Grammar} (hnames : g.ruleNames.Nodup)
    (startRules : List String) (p : Js.ParserModule) :
    ((g.withoutProxies startRules).finished p).withoutProxies startRules =
      (g.withoutProxies startRules).finished p :=
  withoutProxies_of_proxiesApart (proxiesApart_withoutProxies startRules hnames)

/-- Compiling what a compilation has left gives the same code and leaves the same grammar.  Both
modules are made of the same rules and the same pool. -/
theorem compileDefault_compileDefault {g : Grammar} {o : Options} {code : String}
    (h : (compileDefault g o).result = .ok code) :
    (compileDefault (compileDefault g o).work.grammar o).result = .ok code ∧
      (compileDefault (compileDefault g o).work.grammar o).work.grammar =
        (compileDefault g o).work.grammar := by
  obtain ⟨o', p, ho', hstart, hg, hp, rfl, hwork⟩ := exists_of_compileDefault_ok h
  have hwell := hg.withoutProxies o'.startRules
  have hagain := Grammar.withoutProxies_finished hg.names_nodup o'.startRules p
  rw [hwork]
  obtain ⟨p', hp', hresult, hwork'⟩ := compileDefault_of_wellFormed
    (g := (g.withoutProxies o'.startRules).finished p)
    (Options.resolve_withoutProxies hg.names_nodup ho') hstart
    ⟨hwell.names_nodup, hwell.refs_defined⟩
  rw [hagain] at hp' hwork'
  obtain rfl : p = p' := Except.ok.inj (hp.symm.trans hp')
  exact ⟨hresult, hwork'⟩

/-- A start rule that is a proxy, a proxy on the way, and two proxies in a circle. -/
def Grammar.detoured : Grammar where
  rules :=
    [⟨"s", .ref "t" default, default⟩,
      ⟨"t", .choice [.seq [.ref "u" default, .ref "u" default], .ref "a" default], default⟩,
      ⟨"u", .ref "v" default, default⟩, ⟨"v", .literal "x" false, default⟩,
      ⟨"a", .ref "b" default, default⟩, ⟨"b", .ref "a" default, default⟩]

theorem compileDefault_compileDefault_detoured :
    ∃ code g, (compileDefault Grammar.detoured {}).result = .ok code ∧
      (compileDefault Grammar.detoured {}).work.grammar = g ∧
      g.ruleNames = ["s", "t", "v", "b"] ∧
      (compileDefault g {}).result = .ok code ∧ (compileDefault g {}).work.grammar = g := by
  have hoptions : (({} : Options).resolve Grammar.detoured) = .ok { startRules := ["s"] } := rfl
  obtain ⟨p, -, hresult, hwork⟩ := compileDefault_of_wellFormed hoptions (List.cons_ne_nil _ _)
    (by decide)
  refine ⟨p.render, _, hresult, rfl, ?_, compileDefault_compileDefault hresult⟩
  rw [hwork]
  show (Grammar.detoured.withoutProxies ["s"]).ruleNames = _
  decide

end PegGen
