import MethodPatch.Main
import MethodPatch.Proofs.Matching.FullMatch
import MethodPatch.Proofs.Override.History
import MethodPatch.Proofs.Override.Prediction
import MethodPatch.Proofs.Override.Workspace
import MethodPatch.Proofs.Plan.AnchorFrame
import MethodPatch.Proofs.Plan.OverrideReport
import MethodPatch.Proofs.Plan.RequestOrder
import MethodPatch.Proofs.Plan.Widening
import MethodPatch.Proofs.Override.Disjointness
import MethodPatch.Proofs.Plan.Changes
import MethodPatch.Proofs.Expression.InternalForm
import MethodPatch.Proofs.Json.Parts
import MethodPatch.Proofs.Json.RoundTrip
import MethodPatch.Proofs.Plan.Respelling
import MethodPatch.Proofs.Dump.RoundTrip
import MethodPatch.Proofs.Bytecode.LineTable
import MethodPatch.Proofs.Expression.Relocation
import MethodPatch.Proofs.Matching.Relocation
import MethodPatch.Proofs.Matching.FirstOfAll
import MethodPatch.Proofs.Matching.Questions
import MethodPatch.Proofs.Expression.Places
import MethodPatch.Proofs.Expression.Pairing
import MethodPatch.Proofs.Expression.Constructions
import MethodPatch.Proofs.Expression.Nesting
import MethodPatch.Proofs.Expression.PairingByType
import MethodPatch.Proofs.Plan.AnchorHits
import MethodPatch.Proofs.Plan.LocatedAnchors
import MethodPatch.Proofs.CommandLine.Run
import MethodPatch.Proofs.Files.Listing
import MethodPatch.Proofs.Dump.Scan
import MethodPatch.Proofs.Override.Attempt
import MethodPatch.Proofs.Override.Effect
import MethodPatch.Proofs.Override.Coherence
import MethodPatch.Proofs.Matching.Strengthening
import MethodPatch.Proofs.Expression.Classification
import MethodPatch.Proofs.Json.Edits
import MethodPatch.Proofs.Dump.Lenience
import MethodPatch.Proofs.Plan.Strictness
import MethodPatch.Proofs.Bytecode.SortedLines
import MethodPatch.Proofs.Plan.FirstFault
