import TestEngine.Action
import TestEngine.Blueprint
import TestEngine.Builtin
import TestEngine.Collector
import TestEngine.Configuration.Basic
import TestEngine.Configuration.File
import TestEngine.Decimal.Nearest
import TestEngine.Decimal.Power
import TestEngine.Decimal.Shortest
import TestEngine.Decimal.Whole
import TestEngine.Descriptor
import TestEngine.Dictionary
import TestEngine.DisplayName
import TestEngine.Duration
import TestEngine.Engine
import TestEngine.EngineError
import TestEngine.Event
import TestEngine.Execution.ClassNode
import TestEngine.Execution.Code
import TestEngine.Execution.Expansion
import TestEngine.Execution.Instances
import TestEngine.Execution.Leaf
import TestEngine.Execution.Tree
import TestEngine.Execution.Visit
import TestEngine.Execution.World
import TestEngine.Extension
import TestEngine.Glob
import TestEngine.Listener
import TestEngine.Node
import TestEngine.Parameter
import TestEngine.Program
import TestEngine.Proofs.Acting
import TestEngine.Proofs.Admitting
import TestEngine.Proofs.Arguments
import TestEngine.Proofs.Blocks
import TestEngine.Proofs.Bookkeeping
import TestEngine.Proofs.Chaining
import TestEngine.Proofs.Chains
import TestEngine.Proofs.Chronicles
import TestEngine.Proofs.Classes
import TestEngine.Proofs.Closings
import TestEngine.Proofs.Conduct
import TestEngine.Proofs.Containment
import TestEngine.Proofs.Coverage
import TestEngine.Proofs.Discipline
import TestEngine.Proofs.Executing
import TestEngine.Proofs.Expanding
import TestEngine.Proofs.Expansions
import TestEngine.Proofs.Farewells
import TestEngine.Proofs.Gathering
import TestEngine.Proofs.Generating
import TestEngine.Proofs.Governing
import TestEngine.Proofs.History
import TestEngine.Proofs.Hooks
import TestEngine.Proofs.Identifiers
import TestEngine.Proofs.Idling
import TestEngine.Proofs.Instances
import TestEngine.Proofs.Invocations
import TestEngine.Proofs.Leaves
import TestEngine.Proofs.Logs
import TestEngine.Proofs.Makings
import TestEngine.Proofs.Nesting
import TestEngine.Proofs.Phases
import TestEngine.Proofs.Regimes
import TestEngine.Proofs.Registering
import TestEngine.Proofs.Reporting
import TestEngine.Proofs.Seats
import TestEngine.Proofs.Stepping
import TestEngine.Proofs.Stores
import TestEngine.Proofs.Streams
import TestEngine.Proofs.Telling
import TestEngine.Proofs.Visiting
import TestEngine.Regex.Basic
import TestEngine.Regex.Bracket
import TestEngine.Regex.CharClass
import TestEngine.Regex.Escape
import TestEngine.Regex.Parser
import TestEngine.Registry
import TestEngine.Script.Callbacks
import TestEngine.Script.Code
import TestEngine.Script.Instruction
import TestEngine.Script.Play
import TestEngine.Selection
import TestEngine.Settings
import TestEngine.Store
import TestEngine.Stream
import TestEngine.TestError
import TestEngine.TestTree
import TestEngine.Text.Blank
import TestEngine.Text.CaseFolding
import TestEngine.Text.CharSet
import TestEngine.Text.DecimalDigit
import TestEngine.Text.Described
import TestEngine.Text.GraphemeExtend
import TestEngine.Text.Hex
import TestEngine.Text.Quoted
import TestEngine.Text.Split
import TestEngine.Text.Unprintable
import TestEngine.Text.WordCharacter
import TestEngine.Toml.Basic
import TestEngine.Toml.Document
import TestEngine.Toml.Moment
import TestEngine.Toml.Number
import TestEngine.Toml.Parser
import TestEngine.Toml.Printer
import TestEngine.Toml.Token
import TestEngine.Trace
import TestEngine.UniqueId
import TestEngine.Value
import TestEngine.Proofs.Skipping
import TestEngine.Proofs.Selections
import TestEngine.Proofs.Factories
import TestEngine.Proofs.Targets
import TestEngine.Proofs.Positions
import TestEngine.Proofs.Likeness
import TestEngine.Proofs.Coupling
import TestEngine.Proofs.Pairing
import TestEngine.Proofs.Gates
import TestEngine.Proofs.PairedNodes
import TestEngine.Proofs.PairedTrees
import TestEngine.Proofs.Rebodying
import TestEngine.Proofs.Diverging
import TestEngine.Proofs.Isolation
import TestEngine.Proofs.Arrangements
import TestEngine.Proofs.Turns
import TestEngine.Proofs.OneThread
import TestEngine.Proofs.Ranking
import TestEngine.Proofs.StoreTrees
import TestEngine.Proofs.Counting
import TestEngine.Proofs.Resources
import TestEngine.Proofs.Spellings
import TestEngine.Proofs.Validation
import TestEngine.Proofs.Marks
import TestEngine.Proofs.StreamPrograms
import TestEngine.Proofs.StreamLedgers
import TestEngine.Proofs.CloseActions
import TestEngine.Proofs.Reopening
import TestEngine.Proofs.Locks
import TestEngine.Proofs.Watchers
import TestEngine.Proofs.Resolving
import TestEngine.Proofs.Rows
import TestEngine.Proofs.Onlookers
import TestEngine.Proofs.Unnoticed
import TestEngine.Proofs.Grammar
import TestEngine.Proofs.Prefixes
import TestEngine.Proofs.Violations
import TestEngine.Proofs.Refusals
import TestEngine.Proofs.Patterns
import TestEngine.Proofs.Asking
import TestEngine.Proofs.Resolutions
import TestEngine.Proofs.Conditions
import TestEngine.Proofs.Showing
import TestEngine.Proofs.Exceptions
import TestEngine.Proofs.Reading
import TestEngine.Proofs.Indices
import TestEngine.Proofs.Dictionaries
import TestEngine.Proofs.ByteOrder
import TestEngine.Proofs.Layers
import TestEngine.Proofs.Flattening
import TestEngine.Proofs.Substitution
import TestEngine.Proofs.Repetitions
