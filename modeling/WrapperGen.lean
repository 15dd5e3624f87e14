import WrapperGen.Config.Json
import WrapperGen.Files.Tree
import WrapperGen.Main
import WrapperGen.Proofs.Resolution.Delivery
import WrapperGen.Proofs.Resolution.WrittenManifest
import WrapperGen.Proofs.Resolution.Stall
import WrapperGen.Proofs.Resolution.LastRound
import WrapperGen.Proofs.Resolution.Progress
import WrapperGen.Proofs.Swift.FileNames
import WrapperGen.Proofs.Table.Rearrangement
import WrapperGen.Proofs.Resolution.DiscoveryOrder
import WrapperGen.Proofs.Manifest.RoundTrip
import WrapperGen.Proofs.Table.Answers
import WrapperGen.Proofs.Table.OwnMembers
import WrapperGen.Proofs.Table.Readiness
import WrapperGen.Proofs.Table.Additions
import WrapperGen.Proofs.Generator.Rerun
import WrapperGen.Proofs.Resolution.StoredManifest
import WrapperGen.Proofs.Generator.Containment
import WrapperGen.Proofs.Output.Account
import WrapperGen.Proofs.Json.Printing
import WrapperGen.Proofs.TypeRef.Display
import WrapperGen.Proofs.TypeRef.RoundTrip
import WrapperGen.Proofs.TypeRef.Grammar
import WrapperGen.Proofs.TypeRef.Blanks
import WrapperGen.Proofs.Declaration.RoundTrip
import WrapperGen.Proofs.Swift.Checks
import WrapperGen.Proofs.Swift.Entries
import WrapperGen.Proofs.Swift.Lines
import WrapperGen.Proofs.Swift.Levels
import WrapperGen.Proofs.Swift.Methods
import WrapperGen.Proofs.Swift.Readback
import WrapperGen.Proofs.Json.Revision
import WrapperGen.Proofs.Manifest.Compatibility
import WrapperGen.Proofs.Json.Acceptance
import WrapperGen.Proofs.Candidate.Labels
import WrapperGen.Proofs.Candidate.Readiness
import WrapperGen.Proofs.Resolution.Settling
import WrapperGen.Proofs.Table.Precedence
import WrapperGen.Proofs.Resolution.Replay
import WrapperGen.Proofs.Resolution.LocalTypes
import WrapperGen.Proofs.Manifest.History
import WrapperGen.Proofs.Manifest.Lookup
import WrapperGen.Proofs.Output.Interruption
import WrapperGen.Proofs.Generator.Recognition
import WrapperGen.Proofs.Swift.Layout
import WrapperGen.Proofs.Swift.Keywords
