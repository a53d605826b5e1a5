import CommandTrace.Command
import CommandTrace.Main
import CommandTrace.Proofs.LocalNames
import CommandTrace.Proofs.Lookup
import CommandTrace.Proofs.Propagation
import CommandTrace.Proofs.OwnCalls
import CommandTrace.Proofs.DeadEnds
import CommandTrace.Proofs.Isolation
import CommandTrace.Proofs.Alternatives
import CommandTrace.Proofs.RuleSets
import CommandTrace.Proofs.MoreRounds
import CommandTrace.Proofs.Order
import CommandTrace.Proofs.Sources
import CommandTrace.Proofs.ReadBack
import CommandTrace.Proofs.FaithfulCopy
import CommandTrace.Proofs.Imports
import CommandTrace.Proofs.ReportedTexts
import CommandTrace.Proofs.Counters
import CommandTrace.Proofs.Termination
import CommandTrace.Proofs.ArgumentPositions
import CommandTrace.Proofs.Escapes
import CommandTrace.Proofs.Walks
import CommandTrace.Proofs.Unescaped
import CommandTrace.Proofs.KeptLines
import CommandTrace.Proofs.NearestDeclaration
import CommandTrace.Proofs.Discovered
import CommandTrace.Proofs.CodeUnits
import CommandTrace.Proofs.Multimap
import CommandTrace.Proofs.WrittenRules
