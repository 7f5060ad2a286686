import Conformance.Engine.Scripted
import Conformance.Main
import Conformance.Report.Json
import Conformance.Report.Text
import Conformance.Run.Schedule
import Conformance.Proofs.Adjudication
import Conformance.Proofs.Contexts
import Conformance.Proofs.Crowd
import Conformance.Proofs.Interleaving
import Conformance.Proofs.Locality
import Conformance.Proofs.Prediction
import Conformance.Proofs.Shares
import Conformance.Proofs.Bookkeeping
import Conformance.Proofs.Arrival
import Conformance.Proofs.Acceptance
import Conformance.Proofs.Placing
import Conformance.Proofs.Spelling
import Conformance.Proofs.Lexing
import Conformance.Proofs.Parsing
import Conformance.Proofs.RoundTrip
import Conformance.Proofs.Region
import Conformance.Proofs.SingleFile
import Conformance.Proofs.SkipListed
import Conformance.Proofs.ResultForm
import Conformance.Proofs.Enumeration
import Conformance.Proofs.TapLines
import Conformance.Proofs.Planning
import Conformance.Proofs.Dialogue
import Conformance.Proofs.Inspection
import Conformance.Proofs.Naming
import Conformance.Proofs.Restriction
import Conformance.Proofs.PlanForms
import Conformance.Proofs.FlagSets
import Conformance.Proofs.Rounding
import Conformance.Proofs.PlainNumbers
import Conformance.Proofs.Declarations
import Conformance.Proofs.Numerals
import Conformance.Proofs.SectionIds
import Conformance.Proofs.Percentages
import Conformance.Proofs.Rates
import Conformance.Proofs.WalkedFiles
import Conformance.Proofs.ChapterKeys
