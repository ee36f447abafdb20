import LRTables.Automaton.Basic
import LRTables.Automaton.Closure
import LRTables.Automaton.Collection
import LRTables.Automaton.Item
import LRTables.Automaton.Links
import LRTables.Automaton.Merging
import LRTables.Automaton.Propagation
import LRTables.Automaton.SearchLimit
import LRTables.Automaton.Text
import LRTables.Construction
import LRTables.ConstructionError
import LRTables.Digraph
import LRTables.Discovery
import LRTables.FirstSets
import LRTables.Grammar.Analysis
import LRTables.Grammar.Basic
import LRTables.Grammar.Draft
import LRTables.Grammar.Register
import LRTables.Grammar.Text
import LRTables.Grammar.Warning
import LRTables.Lane.ClusterSplit
import LRTables.Lane.Family
import LRTables.Lane.PagerSplit
import LRTables.Lane.Region
import LRTables.Lane.Tracing
import LRTables.Name
import LRTables.Name.ContinueRanges
import LRTables.Name.StartRanges
import LRTables.Name.Unicode
import LRTables.Ordered
import LRTables.Parser
import LRTables.Proofs.AcceptClashes
import LRTables.Proofs.Acceptance
import LRTables.Proofs.Adequacy
import LRTables.Proofs.Admission
import LRTables.Proofs.Ambiguities
import LRTables.Proofs.Attestations
import LRTables.Proofs.BackLinks
import LRTables.Proofs.BuiltTables
import LRTables.Proofs.CanonicalCollections
import LRTables.Proofs.CanonicalSearches
import LRTables.Proofs.ChartedRegions
import LRTables.Proofs.CheckedAccess
import LRTables.Proofs.Circles
import LRTables.Proofs.ClashAgreement
import LRTables.Proofs.ClosedRegisters
import LRTables.Proofs.ClosedStates
import LRTables.Proofs.Closure
import LRTables.Proofs.ClosureSteps
import LRTables.Proofs.ClusterGrowth
import LRTables.Proofs.ClusterPrecision
import LRTables.Proofs.ClusterSplits
import LRTables.Proofs.ClusterTurns
import LRTables.Proofs.Collections
import LRTables.Proofs.CompactedLogs
import LRTables.Proofs.CompactedRuns
import LRTables.Proofs.Compactions
import LRTables.Proofs.ComponentSearches
import LRTables.Proofs.ComponentSteps
import LRTables.Proofs.ComponentUnions
import LRTables.Proofs.Components
import LRTables.Proofs.Configurations
import LRTables.Proofs.ConflictLanes
import LRTables.Proofs.Conflicts
import LRTables.Proofs.Constructions
import LRTables.Proofs.Contention
import LRTables.Proofs.ContestedTables
import LRTables.Proofs.Contests
import LRTables.Proofs.Copies
import LRTables.Proofs.CoreLookaheads
import LRTables.Proofs.DefinedGrammars
import LRTables.Proofs.Derivation
import LRTables.Proofs.Entries
import LRTables.Proofs.ErrorDetection
import LRTables.Proofs.Evidence
import LRTables.Proofs.ExactContexts
import LRTables.Proofs.Expansions
import LRTables.Proofs.FailedSteps
import LRTables.Proofs.Failures
import LRTables.Proofs.FaithfulAutomata
import LRTables.Proofs.FinishedClusters
import LRTables.Proofs.FinishedDrafts
import LRTables.Proofs.FiniteSearches
import LRTables.Proofs.FiniteSplits
import LRTables.Proofs.FirstTerminals
import LRTables.Proofs.Frames
import LRTables.Proofs.FreshCopies
import LRTables.Proofs.GeneratedParsers
import LRTables.Proofs.GivenCores
import LRTables.Proofs.Halting
import LRTables.Proofs.Hunger
import LRTables.Proofs.Intact
import LRTables.Proofs.ItemOrder
import LRTables.Proofs.Lanes
import LRTables.Proofs.LeastClosures
import LRTables.Proofs.LeftmostDerivations
import LRTables.Proofs.Levels
import LRTables.Proofs.LoggedConflicts
import LRTables.Proofs.Lookaheads
import LRTables.Proofs.MarkedLanes
import LRTables.Proofs.Merges
import LRTables.Proofs.Nestings
import LRTables.Proofs.Numerals
import LRTables.Proofs.Originators
import LRTables.Proofs.Outcomes
import LRTables.Proofs.Overlaps
import LRTables.Proofs.PagerPrecision
import LRTables.Proofs.PagerSplits
import LRTables.Proofs.Parents
import LRTables.Proofs.Parses
import LRTables.Proofs.Paths
import LRTables.Proofs.PlainCollections
import LRTables.Proofs.Points
import LRTables.Proofs.PrecedenceLevels
import LRTables.Proofs.PropagationSteps
import LRTables.Proofs.Propagations
import LRTables.Proofs.ProperAutomata
import LRTables.Proofs.ProperSplits
import LRTables.Proofs.ProperTraces
import LRTables.Proofs.Reachability
import LRTables.Proofs.ReadTables
import LRTables.Proofs.Readings
import LRTables.Proofs.Regenerations
import LRTables.Proofs.Regions
import LRTables.Proofs.Registers
import LRTables.Proofs.Remakes
import LRTables.Proofs.ReportedAmbiguities
import LRTables.Proofs.Retracings
import LRTables.Proofs.Rivals
import LRTables.Proofs.RoundTrips
import LRTables.Proofs.Rows
import LRTables.Proofs.Searches
import LRTables.Proofs.SettledNonterminals
import LRTables.Proofs.Settlings
import LRTables.Proofs.ShortSentences
import LRTables.Proofs.SplitLookaheads
import LRTables.Proofs.SplitRegions
import LRTables.Proofs.SplitSearches
import LRTables.Proofs.SplitStarts
import LRTables.Proofs.SplitSteps
import LRTables.Proofs.Splittings
import LRTables.Proofs.Stacks
import LRTables.Proofs.StartTransitions
import LRTables.Proofs.StateGraphs
import LRTables.Proofs.Successors
import LRTables.Proofs.Sustained
import LRTables.Proofs.TableTexts
import LRTables.Proofs.Tables
import LRTables.Proofs.TendedClusters
import LRTables.Proofs.TextLines
import LRTables.Proofs.TracedAutomata
import LRTables.Proofs.Traces
import LRTables.Proofs.TracingEffects
import LRTables.Proofs.Transitions
import LRTables.Proofs.ValidItems
import LRTables.Proofs.ValidTables
import LRTables.Proofs.WalkSteps
import LRTables.Proofs.Walks
import LRTables.Proofs.Wirings
import LRTables.Proofs.YieldedShifts
import LRTables.Report
import LRTables.Samples
import LRTables.Sentences
import LRTables.Table.Action
import LRTables.Table.Basic
import LRTables.Table.Compaction
import LRTables.Table.Conflict
import LRTables.Table.Filling
import LRTables.Table.Reader
import LRTables.Table.Text
import LRTables.Table.Writer
import LRTables.TerminalSet
import LRTables.Text.Line
import LRTables.Text.Numeral
import LRTables.WorkQueue
