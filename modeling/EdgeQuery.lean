import EdgeQuery.Report
import EdgeQuery.Text.Bytes
import EdgeQuery.Text.Utf8
import EdgeQuery.Text.Quote
import EdgeQuery.Text.Unicode.Runs
import EdgeQuery.Text.Unicode.Category
import EdgeQuery.Text.Unicode.Script
import EdgeQuery.Text.Unicode.Case
import EdgeQuery.Number.Binary64
import EdgeQuery.Number.Shortest
import EdgeQuery.Number.FloatText
import EdgeQuery.Number.Read
import EdgeQuery.Query.Syntax
import EdgeQuery.Query.Printer
import EdgeQuery.Query.Token
import EdgeQuery.Query.SyntaxError
import EdgeQuery.Query.Lexer
import EdgeQuery.Query.Parser
import EdgeQuery.Query.Flatten
import EdgeQuery.Query.NullChecks
import EdgeQuery.Query.Dnf
import EdgeQuery.Query.Forest
import EdgeQuery.Pattern.Syntax
import EdgeQuery.Pattern.Class
import EdgeQuery.Pattern.Parser
import EdgeQuery.Pattern.Simplify
import EdgeQuery.Pattern.Match
import EdgeQuery.Document
import EdgeQuery.Terms.Phrases
import EdgeQuery.Terms.Frequencies
import EdgeQuery.Terms.Tokenizer
import EdgeQuery.Eval.Truth
import EdgeQuery.Eval.Context
import EdgeQuery.Eval.Compare
import EdgeQuery.Eval.Condition
import EdgeQuery.Eval.Compile
import EdgeQuery.Eval.Evaluate
import EdgeQuery.Store.Key
import EdgeQuery.Store.Range
import EdgeQuery.Store.Stage
import EdgeQuery.Store.Table
import EdgeQuery.Date
import EdgeQuery.Codec.Base64
import EdgeQuery.Codec.Serial
import EdgeQuery.Codec.Msgpack
import EdgeQuery.Codec.XxHash
import EdgeQuery.Codec.Fse
import EdgeQuery.Codec.Zstd
import EdgeQuery.Codec.Token
import EdgeQuery.Edge.DateType
import EdgeQuery.Edge.Basic
import EdgeQuery.Edge.Prefilter
import EdgeQuery.Plan.Unit
import EdgeQuery.Plan.Bindings
import EdgeQuery.Plan.Compile
import EdgeQuery.Store.Scan
import EdgeQuery.Codec.Header
import EdgeQuery.Edge.Stages
import EdgeQuery.Excerpt.Terms
import EdgeQuery.Excerpt.Stage
import EdgeQuery.Plan.Wire
import EdgeQuery.Plan.Checkpoint
import EdgeQuery.Plan.Execution
import EdgeQuery.Plan.Engine
import EdgeQuery.Schedule
import EdgeQuery.Cli.Archive
import EdgeQuery.Cli.Codec
import EdgeQuery.Cli.Commands
import EdgeQuery.Cli.Flags
import EdgeQuery.Cli.Forms
import EdgeQuery.Cli.Run
import EdgeQuery.Cli.Step
import EdgeQuery.Cli.World
import EdgeQuery.Config.Basic
import EdgeQuery.Config.Form
import EdgeQuery.Config.Store
import EdgeQuery.Duration
import EdgeQuery.Edge.File
import EdgeQuery.Edge.Form
import EdgeQuery.Eval.Form
import EdgeQuery.Excerpt.Fields
import EdgeQuery.Excerpt.Transform
import EdgeQuery.Json.Access
import EdgeQuery.Json.Decode
import EdgeQuery.Json.Read
import EdgeQuery.Json.Value
import EdgeQuery.Json.Write
import EdgeQuery.Log.Event
import EdgeQuery.Log.Filter
import EdgeQuery.Log.Level
import EdgeQuery.Log.Text
import EdgeQuery.Main
import EdgeQuery.Plan.Form
import EdgeQuery.Plan.IdText
import EdgeQuery.Plan.Session
import EdgeQuery.Plan.Sweeper
import EdgeQuery.Record.Basic
import EdgeQuery.Record.Parse
import EdgeQuery.Store.Form
import EdgeQuery.Sync.CallGroup
import EdgeQuery.Sync.Callers
import EdgeQuery.System.Files
import EdgeQuery.System.Glob
import EdgeQuery.System.Path
import EdgeQuery.Terms.Logfmt
import EdgeQuery.Text.Lines
import EdgeQuery.Text.Tabwriter
import EdgeQuery.Timestamp
import EdgeQuery.Proofs.KeyOrder
import EdgeQuery.Proofs.RangeAlgebra
import EdgeQuery.Proofs.ScanUnion
import EdgeQuery.Proofs.MsgpackRead
import EdgeQuery.Proofs.WireRoundTrip
import EdgeQuery.Proofs.ZstdRaw
import EdgeQuery.Proofs.Base64RoundTrip
import EdgeQuery.Proofs.CheckpointToken
import EdgeQuery.Proofs.PauseResume
import EdgeQuery.Proofs.FloatBits
import EdgeQuery.Proofs.RatioRounding
import EdgeQuery.Proofs.EvalSimulation
import EdgeQuery.Proofs.ValueSets
import EdgeQuery.Proofs.PartialEvaluation
import EdgeQuery.Proofs.ShortestDigits
import EdgeQuery.Proofs.FloatTextRead
import EdgeQuery.Proofs.LexPieces
import EdgeQuery.Proofs.LexRendered
import EdgeQuery.Proofs.KeyBytes
import EdgeQuery.Proofs.FlattenEvaluation
import EdgeQuery.Proofs.DnfMeaning
import EdgeQuery.Proofs.FilterGrammar
import EdgeQuery.Proofs.ParseDerivation
import EdgeQuery.Proofs.ReadTrees
import EdgeQuery.Proofs.PrintedReadBack
import EdgeQuery.Proofs.CompileParens
import EdgeQuery.Proofs.ResidualRoundTrip
import EdgeQuery.Proofs.NullCheckExpansion
import EdgeQuery.Proofs.NullCheckEvaluation
import EdgeQuery.Proofs.TermIndex
import EdgeQuery.Proofs.PhraseSearch
import EdgeQuery.Proofs.NumberComparison
import EdgeQuery.Proofs.PhraseIndexText
import EdgeQuery.Proofs.ExcerptStage
import EdgeQuery.Proofs.ExcerptTransform
import EdgeQuery.Proofs.PrefixRanges
import EdgeQuery.Proofs.EmptyRanges
import EdgeQuery.Proofs.ProximitySearch
import EdgeQuery.Proofs.PhraseExactness
import EdgeQuery.Proofs.EdgeEntries
import EdgeQuery.Store.Bolt
import EdgeQuery.Proofs.PersistedTables
import EdgeQuery.Proofs.DnfLimit
import EdgeQuery.Proofs.CheckpointSweep
import EdgeQuery.Proofs.TreeSurgery
import EdgeQuery.Proofs.FailedSurgery
import EdgeQuery.Proofs.DateStages
import EdgeQuery.Proofs.LevelPrecheck
import EdgeQuery.Proofs.SharedCalls
import EdgeQuery.Proofs.FrequencyAdds
import EdgeQuery.Proofs.TokenCalls
import EdgeQuery.Proofs.KleeneEvaluation
import EdgeQuery.Proofs.BranchBindings
import EdgeQuery.Proofs.PlanCoverage
