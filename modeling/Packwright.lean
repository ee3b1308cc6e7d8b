import Packwright.Argument
import Packwright.Builtin.Binding
import Packwright.Builtin.Circle
import Packwright.Builtin.Table
import Packwright.Command
import Packwright.CommandLine
import Packwright.Condition.Leaf
import Packwright.Condition.Parser
import Packwright.Condition.Tree
import Packwright.Decimal.Double
import Packwright.Decimal.Literal
import Packwright.Diagnostic.Cause
import Packwright.Diagnostic.Failure
import Packwright.Diagnostic.Fault
import Packwright.Diagnostic.Location
import Packwright.File.Path
import Packwright.File.Problem
import Packwright.File.Tree
import Packwright.Json.Parser
import Packwright.Json.Problem
import Packwright.Json.Record
import Packwright.Json.Value
import Packwright.Log
import Packwright.Main
import Packwright.Operator
import Packwright.Pack.Basic
import Packwright.Pack.Function
import Packwright.Pack.Path
import Packwright.Pack.Registry
import Packwright.Proofs.Semantics.Arithmetic
import Packwright.Proofs.Semantics.Machine
import Packwright.Project.Artifact
import Packwright.Project.Config
import Packwright.Project.Workspace
import Packwright.Score
import Packwright.Session.Basic
import Packwright.Session.Block
import Packwright.Session.Construct
import Packwright.Session.Definition
import Packwright.Session.Expansion
import Packwright.Session.Flow
import Packwright.Session.Settings
import Packwright.Session.Source
import Packwright.Session.Switch
import Packwright.Session.Variable
import Packwright.Shell.Basic
import Packwright.Shell.Dialogue
import Packwright.Shell.Highlight
import Packwright.Shell.Piped
import Packwright.Shell.Words
import Packwright.Text.Alphabetic
import Packwright.Text.Alphanumeric
import Packwright.Text.Backspace
import Packwright.Text.Blank
import Packwright.Text.Brackets
import Packwright.Text.CaseTable
import Packwright.Text.Cluster
import Packwright.Text.ClusterTable
import Packwright.Text.Escaped
import Packwright.Text.Lines
import Packwright.Text.Lowercase
import Packwright.Text.Outside
import Packwright.Text.Ranges
import Packwright.Text.Search
import Packwright.Token.Basic
import Packwright.Token.Classification
import Packwright.Token.Lexer
import Packwright.Token.Statements
import Packwright.Token.Value
import Packwright.Proofs.Semantics.Condition
import Packwright.Proofs.Semantics.Program
import Packwright.Proofs.Semantics.Lowering
import Packwright.Proofs.Session.Growth
import Packwright.Proofs.Session.Emission
import Packwright.Proofs.Session.Reading
import Packwright.Proofs.Session.Loops
import Packwright.Proofs.Session.Chains
import Packwright.Proofs.Session.Cases
import Packwright.Proofs.Session.Statements
import Packwright.Proofs.Session.Handlers
import Packwright.Proofs.Session.Sources
import Packwright.Proofs.Meaning
import Packwright.Proofs.Dispatch
import Packwright.Proofs.PrivateCalls
import Packwright.Proofs.Token.Balance
import Packwright.Proofs.Binding
import Packwright.Proofs.Freshness
import Packwright.Proofs.Token.Nesting
import Packwright.Proofs.Token.Grouping
import Packwright.Proofs.Token.OnePass
import Packwright.Proofs.AppendOnly
import Packwright.Proofs.Composition
import Packwright.Proofs.Inlining
import Packwright.Proofs.Token.Completeness
import Packwright.Proofs.Token.Covering
import Packwright.Proofs.Vanilla
import Packwright.Proofs.Session.ImportCalls
import Packwright.Proofs.Completion
import Packwright.Proofs.OneLine
import Packwright.Proofs.NeatCommands
import Packwright.Proofs.Session.Neat
import Packwright.Proofs.Session.NeatFiles
import Packwright.Proofs.Lines
import Packwright.Proofs.Replacement
import Packwright.Proofs.Confinement
import Packwright.Proofs.Preservation
import Packwright.Proofs.FaultPlaces
import Packwright.Proofs.Cuts
import Packwright.Proofs.Crashes
import Packwright.Proofs.EnclosingLoops
import Packwright.Proofs.Session.Traces
import Packwright.Proofs.Session.Accounts
import Packwright.Proofs.Session.Mirrors
import Packwright.Proofs.LoopVariables
import Packwright.Proofs.Objectives
import Packwright.Proofs.ConstantReads
import Packwright.Proofs.Session.Supplies
import Packwright.Proofs.Session.SuppliesFiles
import Packwright.Proofs.Constants
import Packwright.Proofs.Words
import Packwright.Proofs.Semantics.SquareRoot
import Packwright.Proofs.Token.Weight
import Packwright.Proofs.Termination.Conditions
import Packwright.Proofs.Termination.Constructs
import Packwright.Proofs.Termination
import Packwright.Proofs.Census.Counting
import Packwright.Proofs.Census.Gains
import Packwright.Proofs.Census.Flow
import Packwright.Proofs.Census.Statements
import Packwright.Proofs.Census
import Packwright.Proofs.SquareRoots
import Packwright.Proofs.SearchTree
import Packwright.Proofs.SwitchTrees
import Packwright.Proofs.Token.Pieces
import Packwright.Proofs.Condition.Acceptance
import Packwright.Proofs.Condition.Grammar
import Packwright.Proofs.Condition.Comparisons
import Packwright.Proofs.Condition.Tests
import Packwright.Proofs.Condition.Printing
import Packwright.Proofs.Condition.Exactness
import Packwright.Proofs.Token.Surroundings
import Packwright.Proofs.Token.Respacing
import Packwright.Proofs.Token.Labels
import Packwright.Proofs.ArgumentTexts
import Packwright.Proofs.Session.Parking
import Packwright.Proofs.ConstructOrder
import Packwright.Proofs.ArgumentLists
import Packwright.Proofs.ArgumentPassing
import Packwright.Proofs.Location.JsonColumns
import Packwright.Proofs.Json.Grammar
import Packwright.Proofs.Json.Printing
import Packwright.Proofs.Json.Acceptance
import Packwright.Proofs.Resources
import Packwright.Proofs.Token.Literals
import Packwright.Proofs.Assignment.Words
import Packwright.Proofs.Assignment.Commands
import Packwright.Proofs.Assignment.Spacing
import Packwright.Proofs.Assignment.Exactness
import Packwright.Proofs.File.Rereading
import Packwright.Proofs.Json.Records
import Packwright.Proofs.Configurations
import Packwright.Proofs.Shell.Colours
import Packwright.Proofs.Shell.Turns
import Packwright.Proofs.Token.Halves
import Packwright.Proofs.IdleSemicolons
