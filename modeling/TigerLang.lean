import TigerLang.Main
import TigerLang.Diagnostic.BuildFault
import TigerLang.Library.Execution
import TigerLang.Source.Reader
import TigerLang.Tree.Decs
import TigerLang.Proofs.CanonicalTypes
import TigerLang.Proofs.Environment
import TigerLang.Proofs.FrameSlots
import TigerLang.Proofs.LexicalScope
import TigerLang.Proofs.Routines
import TigerLang.Proofs.SideTables
import TigerLang.Proofs.StaticLinks
import TigerLang.Proofs.TypeSystem
import TigerLang.Proofs.WellTyped
import TigerLang.Proofs.RoundTrip
import TigerLang.Proofs.Incremental
import TigerLang.Proofs.EarliestFailure
import TigerLang.Proofs.Lexicon
import TigerLang.Proofs.Partition
import TigerLang.Proofs.Counterparts
import TigerLang.Proofs.Tracking
import TigerLang.Proofs.TrackedRules
import TigerLang.Proofs.TrackedTypes
import TigerLang.Proofs.TrackedScopes
import TigerLang.Proofs.Replacement
import TigerLang.Proofs.TrackedForms
import TigerLang.Proofs.OneMistake
import TigerLang.Proofs.Phrases
import TigerLang.Proofs.Covering
import TigerLang.Proofs.Layout
import TigerLang.Proofs.Placement
import TigerLang.Proofs.TypeFaults
import TigerLang.Proofs.TypeReports
import TigerLang.Proofs.Traces
import TigerLang.Proofs.LastingTypes
import TigerLang.Proofs.Storage
import TigerLang.Proofs.Passage
import TigerLang.Proofs.WellStored
import TigerLang.Proofs.Shown
import TigerLang.Proofs.OutlineText
import TigerLang.Proofs.TypePlaces
import TigerLang.Proofs.Attribution
import TigerLang.Proofs.Blame
import TigerLang.Proofs.Excerpts
import TigerLang.Proofs.Renaming
import TigerLang.Proofs.Mirroring
import TigerLang.Proofs.Namespaces
import TigerLang.Proofs.StringLiterals
import TigerLang.Proofs.Separation
import TigerLang.Proofs.OperatorChains
import TigerLang.Proofs.Neutral
import TigerLang.Proofs.LoopExits
import TigerLang.Proofs.NestedComments
import TigerLang.Proofs.Substrings
import TigerLang.Proofs.Lines
import TigerLang.Proofs.LexicalErrors
import TigerLang.Proofs.ScopeStack
import TigerLang.Proofs.Arrows
import TigerLang.Proofs.Progress
import TigerLang.Proofs.Termination
