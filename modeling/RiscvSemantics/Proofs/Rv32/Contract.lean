import RiscvSemantics.Proofs.Run.Sound
import RiscvSemantics.Proofs.Rv32.Layout
import RiscvSemantics.Rv32.Semantics

namespace RiscvSemantics.Rv32

/-- The widths at which a machine with 32-bit registers answers. -/
def widths : Machine.Widths :=
  ⟨32, 32, Violation.cellBits⟩

theorem Word.frame_operands (w : Word) (format : Format) (bytes : Nat) :
    Instruction.frame ⟨w.operands format, bytes⟩ 32 widths = ⟨format, operandWidths format, 32, widths⟩ := by
  cases format <;> rfl

/-- The operands of a decoded word are read in the layout of its opcode. -/
theorem eq_of_decode {w : Word} {extensions : Extensions} {decoded : Decoded Opcode}
    (hdecode : decode w extensions = some decoded) :
    ∃ opcode, decoded = ⟨opcode, w.operands opcode.format⟩ := by
  obtain ⟨-, -, hoperands⟩ := decode_eq_some_iff.mp hdecode
  exact ⟨decoded.opcode, by rw [← hoperands]⟩

/-- Every formula goes through with operands of the layout of its opcode. -/
theorem Opcode.firstViolation_semantics (opcode : Opcode) :
    Statement.firstViolation ⟨opcode.format, operandWidths opcode.format, 32, widths⟩
      opcode.semantics.statements = none := by
  cases opcode <;> rfl

theorem firstViolation_of_decode {w : Word} {extensions : Extensions} {decoded : Decoded Opcode}
    (hdecode : decode w extensions = some decoded) :
    Statement.firstViolation (Instruction.frame ⟨decoded.operands, instructionBytes⟩ 32 widths)
      decoded.opcode.semantics.statements = none := by
  obtain ⟨opcode, rfl⟩ := eq_of_decode hdecode
  rw [Word.frame_operands]
  exact opcode.firstViolation_semantics

theorem catalog_sound : catalog.Sound 32 widths := by
  intro w extensions decoded hdecode
  rw [catalog_semantics]
  exact firstViolation_of_decode hdecode

/-- Decoder and formulas are never out of step. A machine with 32-bit registers that
    serves every access at those widths, as a hart does, executes the formula of
    whatever is decoded, under any extensions. A run then never ends in a violation: it
    ends with its budget, with a pending cause, or at a word that is no instruction. -/
theorem never_out_of_step {σ : Type} [Machine σ Cause] {valid : σ → Prop} (hxlen : Machine.xlen σ = 32)
    (hserves : Machine.Serves valid widths) :
    (∀ w extensions decoded (s : σ), decode w extensions = some decoded → valid s →
      ((decoded.opcode.semantics.execute ⟨decoded.operands, instructionBytes⟩ :
        Interpretation σ Violation Unit) s).1 = .ok ()) ∧
      (∀ budget (s : σ), valid s →
        ((run catalog budget : Interpretation σ RunError (Option Cause)) s).1 = .ok none ∨
          (∃ cause, ((run catalog budget : Interpretation σ RunError (Option Cause)) s).1 = .ok (some cause)) ∨
          ∃ pc word, ((run catalog budget : Interpretation σ RunError (Option Cause)) s).1 =
            .error (.error (.undecodable pc word))) ∧
      Machine.Serves (fun _ : Hart .rv32 => True) widths := by
  have hsound : catalog.Sound (Machine.xlen σ) widths := hxlen ▸ catalog_sound
  refine ⟨fun w extensions decoded s hdecode hvalid => ?_, fun budget s hvalid => ?_, Hart.serves .rv32⟩
  · obtain ⟨s', hexecute, _⟩ := hserves.execute_of_decode hsound hdecode hvalid
    rw [← catalog_semantics]
    exact congrArg Prod.fst hexecute
  · obtain ⟨answer, heard, s', hrun, _, hanswer⟩ :=
      hserves.runFrom_sound hxlen.symm hsound (fun _ _ _ => ()) budget budget () hvalid
    simp only [run, runWith, hrun]
    cases answer with
    | ok cause? =>
      cases cause? with
      | none => exact .inl rfl
      | some cause => exact .inr (.inl ⟨cause, rfl⟩)
    | error stop =>
      obtain ⟨pc, word, rfl⟩ := hanswer stop rfl
      exact .inr (.inr ⟨pc, word, rfl⟩)

/-- On a hart: a load whose address is beyond the memory is executed too. -/
theorem hart_executes_load :
    Machine.xlen (Hart .rv32) = 32 ∧ Machine.Serves (fun _ : Hart .rv32 => True) widths ∧
      decode 0xffc02283#32 Extensions.none = some ⟨.lw, Word.operands 0xffc02283#32 .I⟩ ∧
      ((Opcode.lw.semantics.execute ⟨Word.operands 0xffc02283#32 .I, instructionBytes⟩ :
        Interpretation (Hart .rv32) Violation Unit) (Hart.new .rv32 16 Extensions.none)).1 = .ok () := by
  have hdecode : decode 0xffc02283#32 Extensions.none = some ⟨.lw, Word.operands 0xffc02283#32 .I⟩ := by
    decide
  have hxlen : Machine.xlen (Hart .rv32) = 32 := rfl
  obtain ⟨hexecute, _⟩ := never_out_of_step hxlen (Hart.serves .rv32)
  have hlw := hexecute _ _ _ (Hart.new .rv32 16 Extensions.none) hdecode trivial
  exact ⟨hxlen, Hart.serves .rv32, hdecode, hlw⟩

end RiscvSemantics.Rv32
