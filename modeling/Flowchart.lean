import Flowchart.Main
import Flowchart.Proofs.Braces
import Flowchart.Proofs.Grammar
import Flowchart.Proofs.Acceptance
import Flowchart.Proofs.WellFormed
import Flowchart.Proofs.ControlFlow
import Flowchart.Proofs.Lexing
import Flowchart.Proofs.Printing
import Flowchart.Proofs.Spans
import Flowchart.Proofs.Numbering
import Flowchart.Proofs.Forward
import Flowchart.Proofs.Departures
import Flowchart.Proofs.Arrivals
import Flowchart.Proofs.DeadCode
import Flowchart.Proofs.Concatenation
import Flowchart.Proofs.Locations
import Flowchart.Proofs.Reports
import Flowchart.Proofs.Appearance
import Flowchart.Proofs.Comments
import Flowchart.Proofs.Branching
import Flowchart.Proofs.Forgery
import Flowchart.Proofs.Writing
import Flowchart.Proofs.Gathering
import Flowchart.Proofs.Batch
import Flowchart.Proofs.Coordinates
import Flowchart.Proofs.Seams
import Flowchart.Proofs.Requests
import Flowchart.Proofs.Walk
import Flowchart.Proofs.Styles
import Flowchart.Proofs.Refusals
import Flowchart.Proofs.Completion
import Flowchart.Proofs.Feed
import Flowchart.Proofs.Repairs
import Flowchart.Proofs.Listing
import Flowchart.Proofs.Merging
import Flowchart.Proofs.Chain
import Flowchart.Proofs.Parents
import Flowchart.Proofs.Openings
import Flowchart.Proofs.Delivery
import Flowchart.Proofs.Words
import Flowchart.Proofs.Outlets
import Flowchart.Proofs.Descent
import Flowchart.Proofs.Progress
import Flowchart.Proofs.Counter
