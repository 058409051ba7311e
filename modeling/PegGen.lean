import PegGen.Compile.Pipeline
import PegGen.Compile.Probe
import PegGen.Grammar.Eval
import PegGen.Parse.Script
import PegGen.Proofs.Compile.Execution
import PegGen.Proofs.Compile.Idempotence
import PegGen.Proofs.Compile.Outcome
import PegGen.Proofs.Compile.Uncollected
import PegGen.Proofs.Grammar.Expected
import PegGen.Proofs.Grammar.Locality
import PegGen.Proofs.Grammar.Observers
import PegGen.Proofs.Grammar.ProxyChains
import PegGen.Proofs.Grammar.ProxyMeaning
import PegGen.Proofs.Grammar.ProxyTrace
import PegGen.Proofs.Grammar.Yield
import PegGen.Proofs.Js.Blocks
import PegGen.Proofs.Js.Closedness
import PegGen.Proofs.Js.Declarations
import PegGen.Proofs.Js.Simulation
import PegGen.Proofs.Js.StringLiteral
import PegGen.Proofs.Parse.Discipline
import PegGen.Proofs.Parse.FurthestFailure
import PegGen.Proofs.Parse.PositionCache
import PegGen.Proofs.Trace.Acceptance
import PegGen.Proofs.Trace.Bracketing
import PegGen.Trace.Replay
import PegGen.Proofs.Grammar.Extents
import PegGen.Proofs.Trace.Indentation
import PegGen.Proofs.Js.Registers
import PegGen.Proofs.Parse.Excerpt
import PegGen.Proofs.Expectation.Descriptions
import PegGen.Proofs.Expectation.Wording
import PegGen.Proofs.Grammar.Mistakes
import PegGen.Proofs.Js.Reading
import PegGen.Proofs.Js.Composition
import PegGen.Proofs.Js.Embedding
import PegGen.Proofs.Compile.Header
import PegGen.Proofs.Grammar.Fuel
