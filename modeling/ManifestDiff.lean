import ManifestDiff.Main
import ManifestDiff.Proofs.Diff.Lossless
import ManifestDiff.Proofs.Diff.Truth
import ManifestDiff.Proofs.Diff.Mirror
import ManifestDiff.Proofs.Manifest.Object
import ManifestDiff.Proofs.Report.Matching
import ManifestDiff.Proofs.Report.Shape
import ManifestDiff.Proofs.Json.Printable
import ManifestDiff.Proofs.Render.Delivery
import ManifestDiff.Proofs.Report.Statistics
import ManifestDiff.Proofs.Report.Mirror
import ManifestDiff.Proofs.Diff.Order
import ManifestDiff.Proofs.Diff.Permutation
import ManifestDiff.Proofs.Json.Unambiguous
import ManifestDiff.Proofs.Node.RoundTrip
import ManifestDiff.Proofs.Report.LastObject
import ManifestDiff.Proofs.Render.JsonLines
import ManifestDiff.Proofs.Diff.Accounting
import ManifestDiff.Proofs.Report.Restriction
import ManifestDiff.Proofs.Diff.Display
import ManifestDiff.Proofs.Node.KeyErrors
import ManifestDiff.Proofs.Node.Decoding
import ManifestDiff.Proofs.Manifest.Validation
import ManifestDiff.Proofs.Manifest.Documents
import ManifestDiff.Proofs.Report.Pairing
import ManifestDiff.Proofs.Command.Loading
import ManifestDiff.Proofs.Command.Run
import ManifestDiff.Proofs.Diff.Relocation
import ManifestDiff.Proofs.Report.Vacancy
import ManifestDiff.Proofs.Render.Rows
import ManifestDiff.Proofs.Render.Listing
import ManifestDiff.Proofs.Diff.Pieces
import ManifestDiff.Proofs.Diff.Enclosure
import ManifestDiff.Proofs.Render.Outline
import ManifestDiff.Proofs.Node.Agreement
import ManifestDiff.Proofs.Yaml.Quoting
import ManifestDiff.Proofs.Render.Colours
import ManifestDiff.Proofs.Render.Decoration
import ManifestDiff.Proofs.Text
import ManifestDiff.Proofs.Number.Numeral
import ManifestDiff.Proofs.Number.Shortest
import ManifestDiff.Proofs.Number.Layout
import ManifestDiff.Proofs.Yaml.Unambiguous
import ManifestDiff.Proofs.Yaml.Quoted
import ManifestDiff.Proofs.Render.Replacement
import ManifestDiff.Proofs.Render.Modified
