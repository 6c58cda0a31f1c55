import FlowGrid.Main
import FlowGrid.Proofs.Lattice.FewestTurns
import FlowGrid.Proofs.Exact.Lanes
import FlowGrid.Proofs.Document.Places
import FlowGrid.Proofs.Document.Constructs
import FlowGrid.Proofs.Document.WrittenOut
import FlowGrid.Proofs.Chart.Correspondence
import FlowGrid.Proofs.Chart.Spacing
import FlowGrid.Proofs.Chart.StraightRoutes
import FlowGrid.Proofs.Svg.Characters
import FlowGrid.Proofs.Command.Effects
import FlowGrid.Proofs.Lattice.Reversal
import FlowGrid.Proofs.Chart.Sliding
import FlowGrid.Proofs.Chart.Ends
import FlowGrid.Proofs.Chart.Simplification
import FlowGrid.Proofs.Number.Hundredths
import FlowGrid.Proofs.Lattice.SearchTree
import FlowGrid.Proofs.Lattice.Parents
import FlowGrid.Proofs.Grid.History
import FlowGrid.Proofs.Exact.Outline
import FlowGrid.Proofs.Exact.Triangle
