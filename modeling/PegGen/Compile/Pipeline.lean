import PegGen.Compile.Stages
import PegGen.Grammar.Check
import PegGen.Grammar.Pool
import PegGen.Grammar.Proxy
import PegGen.Js.Module

/-!
# Compiling a grammar

The compiler resolves the options against the grammar, runs stages of passes on it and gives the
code that they left in the grammar.  By default there are three stages: the grammar is checked, its
proxies are removed, and its parser is generated.
-/

namespace PegGen

variable {m : Type → Type} [Monad m]

/-- The default stages.  Their passes have names, so that a caller can replace one. -/
def defaultStages : OrderedMap (PassSet m) :=
  .ofList
    [("check", .named (.ofList
        [("report_duplicate_rules", reportDuplicates),
         ("report_undefined_rules", reportUndefined)])),
     ("transform", .named (.ofList [("remove_proxy_rules", removeProxies)])),
     ("generate", .named (.ofList
        [("collect_expectations", collectExpectations),
         ("generate_js", generateParser)]))]

/-- What a compilation leaves behind. -/
structure Compilation where
  /-- The code. -/
  result : Except CompileError String
  /-- The grammar and the session as the passes left them. -/
  work : Work

/-- The code in a grammar. -/
def Grammar.output (g : Grammar) : Except CompileError String :=
  match g.code with
  | some code => .ok code
  | none => .error .noOutput

/-- Compile a grammar through stages of passes.  Code that the grammar had before is forgotten. -/
def compile (g : Grammar) (stages : Stages m) (options : Options) : m Compilation :=
  match options.resolve g with
  | .error e => return ⟨.error e, { grammar := g }⟩
  | .ok options => do
      let session := Session.note .debug
        ("start rules: " ++ Text.joinWith ", " options.startRules) {}
      let (result, work) ←
        (runStages stages).runWith options ⟨{ g with code := none }, session⟩
      match result with
      | .error e => return ⟨.error e, work⟩
      | .ok () =>
          let session := work.session.diagnostics.foldl
            (fun s d => s.note .trace d.render) work.session
          return ⟨work.grammar.output, { work with session := session }⟩

/-- Compile a grammar through the default stages. -/
def compileDefault (g : Grammar) (options : Options) : Compilation :=
  Id.run (compile g (Stages.ofSets defaultStages) options)

/-- The parser of a grammar. -/
def generate (g : Grammar) (options : Options) : Except CompileError String :=
  (compileDefault g options).result

end PegGen
