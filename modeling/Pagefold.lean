import Pagefold.Command.Run
import Pagefold.Diagnostic.Json
import Pagefold.Json.Printer
import Pagefold.Json.Reader
import Pagefold.Main
import Pagefold.Proofs.Captures
import Pagefold.Proofs.Cycles
import Pagefold.Proofs.Discovery
import Pagefold.Proofs.MissingExports
import Pagefold.Proofs.OutputPaths
import Pagefold.Proofs.Overlaps
import Pagefold.Proofs.Reordering
import Pagefold.Proofs.SecondRun
import Pagefold.Proofs.Segments
import Pagefold.Proofs.Shape
import Pagefold.Proofs.PreloadCalls
import Pagefold.Proofs.Directories
import Pagefold.Proofs.WalkedBuilds
import Pagefold.Proofs.WritingBack
import Pagefold.Proofs.WrittenFiles
import Pagefold.Proofs.DiskRuns
import Pagefold.Proofs.DistinctKeys
import Pagefold.Proofs.TomlKeys
import Pagefold.Proofs.Records
import Pagefold.Proofs.Layering
import Pagefold.Proofs.Precedence
import Pagefold.Proofs.Braces
import Pagefold.Proofs.ByteScan
import Pagefold.Proofs.PreloadShape
import Pagefold.Proofs.LateTests
import Pagefold.Proofs.Utf8
import Pagefold.Proofs.Sightings
import Pagefold.Proofs.UnseenReferrers
import Pagefold.Proofs.Sections
import Pagefold.Proofs.TagNames
import Pagefold.Proofs.Keywords
import Pagefold.Proofs.References
import Pagefold.Proofs.LinearSearch
import Pagefold.Proofs.RelativeReferences
import Pagefold.Proofs.Allocation
import Pagefold.Proofs.ExternalReferences
import Pagefold.Proofs.Identifiers
import Pagefold.Proofs.Comments
import Pagefold.Proofs.CommentBytes
import Pagefold.Proofs.StyleElements
import Pagefold.Proofs.Merging
import Pagefold.Proofs.Preorder
import Pagefold.Proofs.Overrides
import Pagefold.Proofs.QuietRuns
