import PatchGraph.Compile.Inspect
import PatchGraph.Main
import PatchGraph.Proofs.Graph.Arrows
import PatchGraph.Proofs.Graph.Components
import PatchGraph.Proofs.Graph.Boundaries
import PatchGraph.Proofs.Graph.Links
import PatchGraph.Proofs.Graph.Edges
import PatchGraph.Proofs.Graph.Order
import PatchGraph.Proofs.Graph.CycleOrder
import PatchGraph.Proofs.Graph.Writers
import PatchGraph.Proofs.Graph.Dependencies
import PatchGraph.Proofs.Graph.Legality
import PatchGraph.Proofs.Graph.DotReader
import PatchGraph.Proofs.Graph.Drawing
import PatchGraph.Proofs.Json.Compact
import PatchGraph.Proofs.Json.Order
import PatchGraph.Proofs.Json.Restored
import PatchGraph.Proofs.Patch.Canonical
import PatchGraph.Proofs.Patch.Order
import PatchGraph.Proofs.Patch.Indices
import PatchGraph.Proofs.Patch.Defaults
import PatchGraph.Proofs.Patch.Restored
import PatchGraph.Proofs.Patch.RoundTrip
import PatchGraph.Proofs.Text.Bytes
import PatchGraph.Proofs.TypeText.Lexemes
import PatchGraph.Proofs.TypeText.Grammar
import PatchGraph.Proofs.TypeText.Printing
import PatchGraph.Proofs.TypeText.Tiling
import PatchGraph.Proofs.Program.Steps
import PatchGraph.Proofs.Program.Views
import PatchGraph.Proofs.Program.Lowerings
import PatchGraph.Proofs.Program.Growth
import PatchGraph.Proofs.Program.Needs
import PatchGraph.Proofs.Program.Routes
import PatchGraph.Proofs.Program.Effects
import PatchGraph.Proofs.Program.Folding
import PatchGraph.Proofs.Registry.Loaded
import PatchGraph.Proofs.Registry.FirstWins
import PatchGraph.Proofs.Compile.Regime
import PatchGraph.Proofs.Compile.Emission
import PatchGraph.Proofs.Compile.Findings
import PatchGraph.Proofs.Compile.Stages
import PatchGraph.Proofs.Compile.Naming
import PatchGraph.Proofs.Compile.Verification
import PatchGraph.Proofs.Compile.Forms
import PatchGraph.Proofs.Compile.Schedule
import PatchGraph.Proofs.Compile.ScheduleSteps
import PatchGraph.Proofs.Compile.BusSlots
import PatchGraph.Proofs.Compile.Acyclic
import PatchGraph.Proofs.Compile.Clean
import PatchGraph.Proofs.Compile.States
import PatchGraph.Proofs.Compile.SlotTypes
import PatchGraph.Proofs.Compile.Delivery
import PatchGraph.Proofs.Compile.Connections
import PatchGraph.Proofs.Compile.Breaches
import PatchGraph.Proofs.Compile.PolicyReports
import PatchGraph.Proofs.Compile.Supply
import PatchGraph.Proofs.Compile.Appending
import PatchGraph.Proofs.Compile.BusSources
import PatchGraph.Proofs.Compile.ForwardSlots
import PatchGraph.Proofs.Compile.Misfits
import PatchGraph.Proofs.Compile.Constants
import PatchGraph.Proofs.Compile.Layout
import PatchGraph.Proofs.Compile.Runs
import PatchGraph.Proofs.Compile.Reruns
import PatchGraph.Proofs.Compile.Outcome
import PatchGraph.Proofs.Compile.Strictness
import PatchGraph.Proofs.Compile.Locators
import PatchGraph.Proofs.Compile.Origins
import PatchGraph.Proofs.CommandLine.ExitCodes
