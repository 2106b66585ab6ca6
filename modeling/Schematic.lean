import Schematic.Main
import Schematic.Routing.Obstacles
import Schematic.SExpr.Parser
import Schematic.Proofs.Circuit.Operation
import Schematic.Proofs.Circuit.Agreement
import Schematic.Proofs.Circuit.WellFormed
import Schematic.Proofs.Circuit.Connectivity
import Schematic.Proofs.Circuit.NoConnect
import Schematic.Proofs.Circuit.Compaction
import Schematic.Proofs.SExpr.Lexing
import Schematic.Proofs.SExpr.RoundTrip
import Schematic.Proofs.Number.Exact
import Schematic.Proofs.SExpr.NumberText
import Schematic.Proofs.Routing.Trail
import Schematic.Proofs.Routing.Compression
import Schematic.Proofs.Routing.Crossing
import Schematic.Proofs.Circuit.Addressing
import Schematic.Proofs.Circuit.Entries
import Schematic.Proofs.Circuit.Remainder
import Schematic.Proofs.Circuit.Realization
import Schematic.Proofs.Circuit.Ports
import Schematic.Proofs.Lists
import Schematic.Proofs.Geometry.Plane
import Schematic.Proofs.Drawing.Audit
import Schematic.Proofs.Drawing.Connections
import Schematic.Proofs.Geometry.Motion
import Schematic.Proofs.Layout.Arrangement
import Schematic.Proofs.Layout.Authored
import Schematic.Proofs.Layout.Overlap
import Schematic.Proofs.Layout.Completeness
import Schematic.Proofs.Layout.KeptPlaces
import Schematic.Proofs.Layout.PlacedAgain
import Schematic.Proofs.Circuit.NetRecords
import Schematic.Proofs.SExpr.Wording
import Schematic.Proofs.Tables
import Schematic.Proofs.Symbol.Lineage
import Schematic.Proofs.Symbol.Order
import Schematic.Proofs.Symbol.Library
import Schematic.Proofs.Drawing.Findings
import Schematic.Proofs.Run.Report
import Schematic.Proofs.Drawing.Contents
import Schematic.Proofs.Document.Identifiers
import Schematic.Proofs.Document.Persistence
import Schematic.Proofs.Document.Keys
import Schematic.Proofs.Drawing.Entities
import Schematic.Proofs.Circuit.Renaming
import Schematic.Proofs.Layout.Renaming
import Schematic.Proofs.Drawing.Renaming
import Schematic.Proofs.Routing.Obstacles
import Schematic.Proofs.Document.Uuid
import Schematic.Proofs.Document.Reading
import Schematic.Proofs.Circuit.NetNames
import Schematic.Proofs.Steps
import Schematic.Proofs.Json.RoundTrip
import Schematic.Proofs.Run.Files
import Schematic.Proofs.Routing.Cheapest
import Schematic.Proofs.Routing.Reachability
import Schematic.Proofs.Routing.LastCell
import Schematic.Proofs.Routing.Clearance
import Schematic.Proofs.Run.Repetition
import Schematic.Proofs.Layout.ScaleLimit
import Schematic.Proofs.Drawing.Probes
import Schematic.Proofs.Circuit.Interfaces
import Schematic.Proofs.Circuit.Containment
import Schematic.Proofs.Circuit.Blame
import Schematic.Proofs.Symbol.PinKeys
import Schematic.Proofs.Circuit.Numbering
import Schematic.Proofs.Drawing.PinPlaces
import Schematic.Proofs.Layout.Tree
import Schematic.Proofs.Layout.Cells
import Schematic.Proofs.Routing.Termination
import Schematic.Proofs.Drawing.Repetitions
import Schematic.Proofs.Document.Quantization
import Schematic.Proofs.Routing.Masks
import Schematic.Proofs.Layout.Moves
import Schematic.Proofs.Layout.Chain
import Schematic.Proofs.Routing.Polyline
import Schematic.Proofs.Drawing.PinBounds
import Schematic.Proofs.Layout.SharedNets
