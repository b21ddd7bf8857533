import ImageNaming.Program
import ImageNaming.Proofs.Pattern.Matching
import ImageNaming.Proofs.Pattern.Rows
import ImageNaming.Proofs.Pattern.Machine
import ImageNaming.Proofs.Grammar.Component
import ImageNaming.Proofs.Grammar.Alphabet
import ImageNaming.Proofs.Grammar.Host
import ImageNaming.Proofs.Grammar.Path
import ImageNaming.Proofs.Grammar.Spelling
import ImageNaming.Proofs.Grammar.Scan
import ImageNaming.Proofs.Text.Trimmed
import ImageNaming.Proofs.Text.Tight
import ImageNaming.Proofs.Text.Order
import ImageNaming.Proofs.Text.LineEnds
import ImageNaming.Proofs.Reference.Version
import ImageNaming.Proofs.Reference.Segments
import ImageNaming.Proofs.Reference.Normalised
import ImageNaming.Proofs.Reference.Validity
import ImageNaming.Proofs.Reference.LastColon
import ImageNaming.Proofs.Reference.Form
import ImageNaming.Proofs.Reference.Language
import ImageNaming.Proofs.Reference.Written
import ImageNaming.Proofs.Reference.ExplicitTag
import ImageNaming.Proofs.Reference.Parts
import ImageNaming.Proofs.Reference.WellFormed
import ImageNaming.Proofs.Reference.ReadBack
import ImageNaming.Proofs.Reference.Placement
import ImageNaming.Proofs.Reference.Resolution
import ImageNaming.Proofs.Input.Canonical
import ImageNaming.Proofs.Reference.Retained
import ImageNaming.Proofs.Log.Shown
import ImageNaming.Proofs.Log.Sections
import ImageNaming.Proofs.Log.Quiet
import ImageNaming.Proofs.Report.Lines
import ImageNaming.Proofs.Report.Safe
import ImageNaming.Proofs.Report.ReadBack
import ImageNaming.Proofs.Command.Resolve
import ImageNaming.Proofs.Command.Validate
import ImageNaming.Proofs.Command.Agreement
import ImageNaming.Proofs.Document.Reader
import ImageNaming.Proofs.Settings.Faults
import ImageNaming.Proofs.Settings.Validation
import ImageNaming.Proofs.Settings.Documents
import ImageNaming.Proofs.ImageList.Faults
import ImageNaming.Proofs.ImageList.Written
import ImageNaming.Proofs.Command.Faults
import ImageNaming.Proofs.Grammar.Label
import ImageNaming.Proofs.Reference.Namespace
import ImageNaming.Proofs.Reference.Outcome
import ImageNaming.Proofs.Reference.Malformed
import ImageNaming.Proofs.Reference.Fallback
