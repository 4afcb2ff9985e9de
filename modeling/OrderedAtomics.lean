import OrderedAtomics.Export.Call
import OrderedAtomics.Interleaving.Machine
import OrderedAtomics.Binding.Race
import OrderedAtomics.Binding.Session
import OrderedAtomics.Directives
import OrderedAtomics.Main
import OrderedAtomics.Proofs.Register
import OrderedAtomics.Proofs.CellProvider
import OrderedAtomics.Proofs.Interleaving.FetchTotals
import OrderedAtomics.Proofs.Interleaving.BoundedCounting
import OrderedAtomics.Proofs.Binding.SingleResolution
import OrderedAtomics.Proofs.Binding.EntryPoints
import OrderedAtomics.Proofs.Interleaving.Outcomes
import OrderedAtomics.Proofs.Interleaving.Conservation
import OrderedAtomics.Proofs.Interleaving.VersionTag
import OrderedAtomics.Proofs.Interleaving.Election
import OrderedAtomics.Proofs.Export.Spelling
import OrderedAtomics.Proofs.Export.Surface
import OrderedAtomics.Proofs.Export.ForeignCaller
import OrderedAtomics.Proofs.Text.Utf8
import OrderedAtomics.Proofs.BuildStep
import OrderedAtomics.Proofs.Export.Listing
import OrderedAtomics.Proofs.Export.CompleteSurface
import OrderedAtomics.Storage.Construction
import OrderedAtomics.Proofs.Construction
import OrderedAtomics.Proofs.Interleaving.Trace
import OrderedAtomics.Proofs.Interleaving.Course
import OrderedAtomics.Proofs.Interleaving.Retries
import OrderedAtomics.Proofs.Interleaving.History
import OrderedAtomics.Proofs.Retry
import OrderedAtomics.Proofs.Interleaving.BitClaims
import OrderedAtomics.Proofs.Interleaving.Tickets
import OrderedAtomics.Proofs.Encodings
import OrderedAtomics.Proofs.Binding.FirstFailure
import OrderedAtomics.Proofs.Binding.Stages
import OrderedAtomics.Proofs.Binding.Wording
import OrderedAtomics.Proofs.FailingSteps
import OrderedAtomics.Proofs.Export.Underscores
import OrderedAtomics.Proofs.Export.Findings
import OrderedAtomics.Proofs.Json.Written
import OrderedAtomics.Proofs.Json.Strict
import OrderedAtomics.Proofs.Bench.Gathering
import OrderedAtomics.Proofs.Bench.Overwriting
import OrderedAtomics.Proofs.DoubleWordTargets
