import RiscvSemantics.Command.Directory
import RiscvSemantics.Json.Forms
import RiscvSemantics.Machine.Sparse
import RiscvSemantics.Main
import RiscvSemantics.Proofs.Command.Report
import RiscvSemantics.Proofs.Hart.Ideal
import RiscvSemantics.Proofs.Hart.Number
import RiscvSemantics.Proofs.Hart.Refinement
import RiscvSemantics.Proofs.Image.Expansion
import RiscvSemantics.Proofs.Image.Malformed
import RiscvSemantics.Proofs.Isa.Name
import RiscvSemantics.Proofs.Json.Vector
import RiscvSemantics.Proofs.Laws.Count
import RiscvSemantics.Proofs.Laws.Display
import RiscvSemantics.Proofs.Laws.Division
import RiscvSemantics.Proofs.Laws.Hexadecimal
import RiscvSemantics.Proofs.Laws.Movement
import RiscvSemantics.Proofs.Laws.Product
import RiscvSemantics.Proofs.Laws.Slice
import RiscvSemantics.Proofs.Laws.Truncation
import RiscvSemantics.Proofs.Laws.Widening
import RiscvSemantics.Proofs.Record.Complete
import RiscvSemantics.Proofs.Record.Dependence
import RiscvSemantics.Proofs.Record.Failure
import RiscvSemantics.Proofs.Record.FirstCause
import RiscvSemantics.Proofs.Run.Split
import RiscvSemantics.Proofs.Run.Switched
import RiscvSemantics.Proofs.Rv32.Alignment
import RiscvSemantics.Proofs.Rv32.ByteOrder
import RiscvSemantics.Proofs.Rv32.Computation
import RiscvSemantics.Proofs.Rv32.Error
import RiscvSemantics.Proofs.Rv32.Hazard
import RiscvSemantics.Proofs.Rv32.MoreExtensions
import RiscvSemantics.Proofs.Rv32.Roundtrip
import RiscvSemantics.Proofs.Rv32.Step
import RiscvSemantics.Proofs.Rv32.SumLoop
import RiscvSemantics.Proofs.Stored.Chain
