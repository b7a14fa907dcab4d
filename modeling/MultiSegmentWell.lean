import MultiSegmentWell.Main
import MultiSegmentWell.SegmentSet.History
import MultiSegmentWell.Proofs.Order.Arrangement
import MultiSegmentWell.Proofs.Outcome
import MultiSegmentWell.Proofs.Order.Ordered
import MultiSegmentWell.Proofs.Tree.Resolution
import MultiSegmentWell.Proofs.Tree.Equipment
import MultiSegmentWell.Proofs.Order.Verdict
import MultiSegmentWell.Proofs.Order.BranchChains
import MultiSegmentWell.Proofs.Tree.Resolved
import MultiSegmentWell.Proofs.Tree.ResolvedMark
import MultiSegmentWell.Proofs.Tree.Records
import MultiSegmentWell.Proofs.Tree.Increments
import MultiSegmentWell.Proofs.Tree.Runs
import MultiSegmentWell.Proofs.Tree.RunChains
import MultiSegmentWell.Proofs.Tree.Expansion
import MultiSegmentWell.Proofs.Tree.Failures
import MultiSegmentWell.Proofs.Work
import MultiSegmentWell.Proofs.Order.Swaps
import MultiSegmentWell.Proofs.Order.Links
import MultiSegmentWell.Proofs.Tree.InletsAside
import MultiSegmentWell.Proofs.Tree.Assembly
import MultiSegmentWell.Proofs.Tree.Repetition
import MultiSegmentWell.Proofs.Tree.Determined
import MultiSegmentWell.Proofs.Tree.RecordOrder
import MultiSegmentWell.Proofs.Order.Entries
import MultiSegmentWell.Proofs.Tree.Orderable
import MultiSegmentWell.Proofs.Tree.Acceptance
import MultiSegmentWell.Proofs.Number.Differences
import MultiSegmentWell.Proofs.Tree.Lengths
import MultiSegmentWell.Proofs.Tree.Restated
import MultiSegmentWell.Proofs.Tree.Readiness
import MultiSegmentWell.Proofs.Deck.Perforations
import MultiSegmentWell.Proofs.Deck.Validation
import MultiSegmentWell.Proofs.Deck.Wells
import MultiSegmentWell.Proofs.Tree.LoadFaults
import MultiSegmentWell.Proofs.Deck.BuildFaults
import MultiSegmentWell.Proofs.Deck.Validated
import MultiSegmentWell.Proofs.Deck.Modes
import MultiSegmentWell.Proofs.Tree.Findings
import MultiSegmentWell.Proofs.Order.BranchSegments
import MultiSegmentWell.Proofs.Report.Rows
import MultiSegmentWell.Proofs.Number.Magnitudes
import MultiSegmentWell.Proofs.Number.Parts
import MultiSegmentWell.Proofs.Number.Numerals
import MultiSegmentWell.Proofs.Json.Scalars
import MultiSegmentWell.Proofs.Json.Values
import MultiSegmentWell.Proofs.Deck.Fields
import MultiSegmentWell.Proofs.Deck.RoundTrip
import MultiSegmentWell.Proofs.Deck.Options
import MultiSegmentWell.Proofs.Order.Ambiguity
import MultiSegmentWell.Proofs.Order.BranchLoops
import MultiSegmentWell.Proofs.Tree.Attachment
import MultiSegmentWell.Proofs.Number.TotalOrder
import MultiSegmentWell.Proofs.Tree.Nearest
import MultiSegmentWell.Proofs.Tree.Allocation
import MultiSegmentWell.Proofs.Tree.Divisors
import MultiSegmentWell.Proofs.Deck.References
import MultiSegmentWell.Proofs.Tree.Valves
import MultiSegmentWell.Proofs.Number.Rounding
import MultiSegmentWell.Proofs.Number.Products
import MultiSegmentWell.Proofs.Tree.Roughness
import MultiSegmentWell.Proofs.Number.Known
import MultiSegmentWell.Proofs.Deck.Valves
