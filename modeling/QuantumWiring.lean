import QuantumWiring.Main
import QuantumWiring.Proofs.Drawing.Program
import QuantumWiring.Proofs.Graph.Report
import QuantumWiring.Proofs.Graph.Height
import QuantumWiring.Proofs.Graph.Attachment
import QuantumWiring.Proofs.Schedule.Greedy
import QuantumWiring.Proofs.Schedule.Reach
import QuantumWiring.Proofs.Schedule.Termination
import QuantumWiring.Proofs.Schedule.Places
import QuantumWiring.Proofs.Compile.Collection
import QuantumWiring.Proofs.Compile.Count
import QuantumWiring.Proofs.Compile.Verdict
import QuantumWiring.Proofs.Compile.Beside
import QuantumWiring.Proofs.Compile.Redrawing
import QuantumWiring.Proofs.Schedule.Provenance
import QuantumWiring.Proofs.Stabilizer.Generator
import QuantumWiring.Proofs.Json.Reload
import QuantumWiring.Proofs.Engine.Ket
import QuantumWiring.Proofs.Config.Acceptance
import QuantumWiring.Proofs.Config.Override
import QuantumWiring.Proofs.Correction.Grammar
import QuantumWiring.Proofs.Compile.Endpoint
import QuantumWiring.Proofs.Command.Request
