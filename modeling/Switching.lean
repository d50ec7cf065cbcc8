import Switching.Input.Channel
import Switching.Main
import Switching.Proofs.Cover.Cubes
import Switching.Proofs.Cover.Primes
import Switching.Proofs.Cover.Hitting
import Switching.Proofs.Cover.Selection
import Switching.Proofs.Cover.Minimality
import Switching.Proofs.Engine.Outcome
import Switching.Proofs.Engine.Value
import Switching.Proofs.Engine.Gates
import Switching.Proofs.Cover.Meaning
import Switching.Proofs.Engine.Tables
import Switching.Proofs.Engine.CallGraph
import Switching.Proofs.Engine.Recursion
import Switching.Proofs.Engine.Isolation
import Switching.Proofs.Engine.Display
import Switching.Proofs.Engine.Resynthesis
import Switching.Proofs.Engine.Substitution
import Switching.Proofs.Engine.Inlining
import Switching.Proofs.Engine.GateForms
import Switching.Proofs.Engine.Environment
import Switching.Proofs.Engine.Execution
import Switching.Proofs.Engine.Coupling
import Switching.Proofs.Engine.ControlFlow
import Switching.Proofs.Expr.Lexemes
import Switching.Proofs.Program.Lexemes
import Switching.Proofs.Parse.Phrase
import Switching.Proofs.Parse.Program
import Switching.Proofs.Engine.Composition
import Switching.Proofs.Places.Expr
import Switching.Proofs.Places.Program
import Switching.Proofs.Places.Run
import Switching.Proofs.Machine.Basic
import Switching.Proofs.Machine.Atomicity
import Switching.Proofs.Machine.Depth
import Switching.Proofs.Grammar.Complete
import Switching.Proofs.Grammar.Sound.Draft
import Switching.Proofs.Token.Kinds
import Switching.Proofs.Grammar.Places
import Switching.Proofs.Grammar.Parse
import Switching.Proofs.Cover.Maximal
import Switching.Proofs.Cover.Optimum
import Switching.Proofs.Cover.Halves
import Switching.Proofs.Cover.Rounds
import Switching.Proofs.Engine.FunctionTables
import Switching.Proofs.Engine.Stability
import Switching.Proofs.Engine.Persistence
import Switching.Proofs.Engine.TableCalls
import Switching.Proofs.Engine.ScopedInlining
import Switching.Proofs.Expr.Nodes
import Switching.Proofs.Expr.GateShape
import Switching.Proofs.Engine.NormalForm
import Switching.Proofs.Input.Ledger
import Switching.Proofs.Input.Network
import Switching.Proofs.Input.Tracking
import Switching.Proofs.Input.Requests
import Switching.Proofs.Cover.Dependence
import Switching.Proofs.Grammar.Parentheses
import Switching.Proofs.Grammar.Layout
import Switching.Proofs.Grammar.FirstError
import Switching.Proofs.Engine.TableStatements
import Switching.Proofs.Input.Lines
import Switching.Proofs.TruthTable.Text
import Switching.Proofs.Program.Nodes
import Switching.Proofs.Grammar.Spans
import Switching.Proofs.Cover.Expansion
import Switching.Proofs.Cover.Merging
import Switching.Proofs.Source.Location
