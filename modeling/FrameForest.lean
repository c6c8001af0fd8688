import FrameForest.Geometry.Motion
import FrameForest.Time.Duration
import FrameForest.Table
import FrameForest.Edge.History
import FrameForest.Edge.Track
import FrameForest.Frame.Ancestry
import FrameForest.Frame.Cursor
import FrameForest.Frame.Roster
import FrameForest.Frame.Outline
import FrameForest.Forest.Basic
import FrameForest.Forest.Resolve
import FrameForest.Diagnosis.Reason
import FrameForest.Diagnosis.Sink
import FrameForest.Publishing.Advertisements
import FrameForest.Publishing.Message
import FrameForest.Session.Basic
import FrameForest.Decimal.Literal
import FrameForest.Ron.Token
import FrameForest.Wire.Codec
import FrameForest.Ron.Value
import FrameForest.Settings.Text
import FrameForest.Document.Basic
import FrameForest.Document.Forms
import FrameForest.Document.Json
import FrameForest.Publishing.DeviationText
import FrameForest.Proofs.Histories
import FrameForest.Proofs.Frame.Reachability
import FrameForest.Proofs.Frame.Hierarchy
import FrameForest.Proofs.Frame.Lineage
import FrameForest.Proofs.Frame.Enumeration
import FrameForest.Proofs.Time.Order
import FrameForest.Proofs.Edge.Bracketing
import FrameForest.Proofs.Edge.Retention
import FrameForest.Proofs.Edge.EdgeTables
import FrameForest.Proofs.Edge.Holdings
import FrameForest.Proofs.Edge.Answers
import FrameForest.Proofs.Table.Reordering
import FrameForest.Proofs.Frame.Likeness
import FrameForest.Proofs.Forest.Recording
import FrameForest.Proofs.Forest.Lookups
import FrameForest.Proofs.Forest.Likeness
import FrameForest.Proofs.Forest.Calls
import FrameForest.Proofs.Forest.Agreement
import FrameForest.Proofs.Forest.Transparency
import FrameForest.Proofs.Forest.Provenance
import FrameForest.Proofs.Forest.ArrivalOrder
import FrameForest.Proofs.Forest.Refusal
import FrameForest.Proofs.Forest.Recency
import FrameForest.Proofs.Forest.Inquiries
import FrameForest.Proofs.Publishing.References
import FrameForest.Proofs.Wire.Decoding
import FrameForest.Proofs.Wire.RoundTrip
import FrameForest.Proofs.Ron.Scanning
import FrameForest.Proofs.Ron.Numerals
import FrameForest.Proofs.Ron.Records
import FrameForest.Proofs.Settings.RoundTrip
import FrameForest.Proofs.Geometry.Algebra
import FrameForest.Proofs.Frame.Routes
import FrameForest.Proofs.Edge.Readings
import FrameForest.Proofs.Frame.Adoption
import FrameForest.Proofs.Frame.CommonAncestors
import FrameForest.Proofs.Forest.Determination
import FrameForest.Proofs.Forest.Remembrance
import FrameForest.Proofs.Forest.Twins
import FrameForest.Proofs.Geometry.Exact
import FrameForest.Proofs.Geometry.Lengths
import FrameForest.Proofs.Forest.Composition
import FrameForest.Proofs.Forest.Adjustment
import FrameForest.Proofs.Forest.Normalization
import FrameForest.Proofs.Forest.Storing
import FrameForest.Proofs.Forest.Reports
import FrameForest.Proofs.Forest.Blaming
import FrameForest.Proofs.Publishing.Labels
import FrameForest.Proofs.Session.Calls
import FrameForest.Proofs.Session.Deferral
import FrameForest.Proofs.Session.Clearing
import FrameForest.Proofs.Diagnosis.Boards
import FrameForest.Proofs.Diagnosis.Watches
import FrameForest.Proofs.Session.TickOrder
import FrameForest.Proofs.Session.PlacementHistory
import FrameForest.Proofs.Session.Seeking
import FrameForest.Proofs.Session.Resumption
import FrameForest.Proofs.Frame.Unfolding
import FrameForest.Proofs.Frame.Outlines
import FrameForest.Proofs.Edge.Monotonicity
import FrameForest.Proofs.Frame.DefaultFrames
import FrameForest.Proofs.Ron.Lexemes
import FrameForest.Proofs.Ron.Phrases
import FrameForest.Proofs.Settings.Overriding
import FrameForest.Proofs.Edge.Interpolation
import FrameForest.Proofs.Edge.Signs
import FrameForest.Proofs.Frame.Climbing
