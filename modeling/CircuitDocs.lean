import CircuitDocs.Circuit.Record
import CircuitDocs.Command.Help
import CircuitDocs.Command.Run
import CircuitDocs.Disk.Discovery
import CircuitDocs.Doc.Entry
import CircuitDocs.Ignore.Match
import CircuitDocs.Main
import CircuitDocs.Proofs.Circuit.Draft
import CircuitDocs.Proofs.Circuit.Joined
import CircuitDocs.Proofs.Circuit.Ownership
import CircuitDocs.Proofs.Disk.Discovery
import CircuitDocs.Proofs.Disk.Path
import CircuitDocs.Proofs.Disk.Put
import CircuitDocs.Proofs.Disk.Change
import CircuitDocs.Proofs.Ignore.Directory
import CircuitDocs.Proofs.Doc.RoundTrip
import CircuitDocs.Proofs.Ignore.Nested
import CircuitDocs.Proofs.Report.Template
import CircuitDocs.Report.Payload
import CircuitDocs.Report.Table
import CircuitDocs.Rules.Check
import CircuitDocs.Proofs.Text.Padded
import CircuitDocs.Proofs.Doc.Padded
import CircuitDocs.Proofs.Doc.Alike
import CircuitDocs.Proofs.Circuit.Padded
import CircuitDocs.Proofs.Report.Padded
import CircuitDocs.Proofs.Circuit.Single
import CircuitDocs.Proofs.Report.Run
import CircuitDocs.Proofs.Rules.Selection
import CircuitDocs.Proofs.Report.Selection
import CircuitDocs.Proofs.Command.Selection
import CircuitDocs.Proofs.Command.Course
import CircuitDocs.Proofs.Command.Frame
import CircuitDocs.Proofs.Command.Source
import CircuitDocs.Proofs.Disk.Named
import CircuitDocs.Proofs.Command.Status
import CircuitDocs.Proofs.Report.Payload
import CircuitDocs.Proofs.Command.Format
import CircuitDocs.Proofs.Disk.Precedence
import CircuitDocs.Proofs.Circuit.Extent
import CircuitDocs.Proofs.Circuit.Reach
import CircuitDocs.Proofs.Circuit.ReturnType
import CircuitDocs.Proofs.Doc.FixedPoint
import CircuitDocs.Proofs.Doc.TagSection
import CircuitDocs.Proofs.Doc.Partition
import CircuitDocs.Proofs.Doc.Locality
import CircuitDocs.Proofs.Rules.CrossCheck
import CircuitDocs.Proofs.Doc.Decoration
import CircuitDocs.Proofs.Text.Collapsed
import CircuitDocs.Proofs.Circuit.Declaration
import CircuitDocs.Proofs.Circuit.Sound
import CircuitDocs.Proofs.Circuit.Matching
import CircuitDocs.Proofs.Circuit.Pieces
import CircuitDocs.Proofs.Command.Interleaving
import CircuitDocs.Proofs.Json.Decode
import CircuitDocs.Proofs.Json.Exact
import CircuitDocs.Proofs.Json.Render
import CircuitDocs.Proofs.Report.Decoding
import CircuitDocs.Proofs.Command.Lossless
