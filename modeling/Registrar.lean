import Registrar.Main
import Registrar.Proofs.Catalog.Import
import Registrar.Proofs.Catalog.Transcript
import Registrar.Proofs.Holdings.Closed
import Registrar.Proofs.Prerequisite.Admission
import Registrar.Proofs.Prerequisite.Missing
import Registrar.Proofs.Prerequisite.Expression
import Registrar.Proofs.Prerequisite.Spec
import Registrar.Proofs.Text.Utf8
import Registrar.Proofs.Json.Quoted
import Registrar.Proofs.Json.Token
import Registrar.Proofs.Json.Written
import Registrar.Proofs.Json.Record
import Registrar.Proofs.Prerequisite.Nesting
import Registrar.Proofs.Catalog.Reading
import Registrar.Proofs.Holdings.Maintained
import Registrar.Proofs.Http.Requests
import Registrar.Proofs.Http.LastWrite
import Registrar.Proofs.Holdings.Ascending
import Registrar.Proofs.Advising.Progress
import Registrar.Proofs.Advising.Eligibility
import Registrar.Proofs.Advising.Setting
import Registrar.Proofs.Catalog.Written
import Registrar.Proofs.Records.References
import Registrar.Proofs.Text.Blank
import Registrar.Proofs.Text.Decimal
import Registrar.Proofs.Csv.Written
import Registrar.Proofs.Catalog.WrittenTranscript
import Registrar.Proofs.Advising.Others
import Registrar.Proofs.Calendar.Date
import Registrar.Proofs.Records.Settled
import Registrar.Proofs.Holdings.Batches
import Registrar.Proofs.Prerequisite.FirstFault
import Registrar.Proofs.Prerequisite.Contribution
import Registrar.Proofs.Audit.Credits
import Registrar.Proofs.Prerequisite.FurtherCourses
import Registrar.Proofs.Audit.Exact
import Registrar.Proofs.Audit.Advance
import Registrar.Proofs.Audit.Shared
import Registrar.Proofs.Audit.Listings
import Registrar.Proofs.Advising.Maintaining
import Registrar.Proofs.Catalog.TranscriptLines
import Registrar.Proofs.Major
import Registrar.Proofs.Prerequisite.Traversal
