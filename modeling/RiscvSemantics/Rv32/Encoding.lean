import RiscvSemantics.Isa.Extensions
import RiscvSemantics.Run.Catalog
import RiscvSemantics.Rv32.Opcode

namespace RiscvSemantics.Rv32

/-- An instruction word. -/
abbrev Word := BitVec 32

namespace Word

/-- The lowest two bits, which are set in every word of full length. -/
def quadrant (w : Word) : BitVec 2 := w.extractLsb' 0 2

def major (w : Word) : BitVec 5 := w.extractLsb' 2 5

def rd (w : Word) : BitVec 5 := w.extractLsb' 7 5

def funct3 (w : Word) : BitVec 3 := w.extractLsb' 12 3

def rs1 (w : Word) : BitVec 5 := w.extractLsb' 15 5

def rs2 (w : Word) : BitVec 5 := w.extractLsb' 20 5

def funct7 (w : Word) : BitVec 7 := w.extractLsb' 25 7

def immI (w : Word) : BitVec 12 := w.extractLsb' 20 12

def immS (w : Word) : BitVec 12 := w.extractLsb' 25 7 ++ w.extractLsb' 7 5

/-- A branch offset, which is even: bit 0 has no place in the word. -/
def immB (w : Word) : BitVec 13 :=
  w.extractLsb' 31 1 ++ w.extractLsb' 7 1 ++ w.extractLsb' 25 6 ++ w.extractLsb' 8 4 ++ 0#1

def immU (w : Word) : BitVec 20 := w.extractLsb' 12 20

/-- The zeros that an upper immediate stands above. -/
def belowUpper : Bits := ⟨12, 0#12, by decide⟩

/-- A jump offset, which is even: bit 0 has no place in the word. -/
def immJ (w : Word) : BitVec 21 :=
  w.extractLsb' 31 1 ++ w.extractLsb' 12 8 ++ w.extractLsb' 20 1 ++ w.extractLsb' 21 10 ++ 0#1

/-- The operands of a word read in a layout. -/
def operands (w : Word) : Format → Operands
  | .R => ⟨.R, [⟨5, w.rd, by decide⟩, ⟨5, w.rs1, by decide⟩, ⟨5, w.rs2, by decide⟩], rfl⟩
  | .I => ⟨.I, [⟨5, w.rd, by decide⟩, ⟨5, w.rs1, by decide⟩, ⟨12, w.immI, by decide⟩], rfl⟩
  | .S => ⟨.S, [⟨5, w.rs1, by decide⟩, ⟨5, w.rs2, by decide⟩, ⟨12, w.immS, by decide⟩], rfl⟩
  | .B => ⟨.B, [⟨5, w.rs1, by decide⟩, ⟨5, w.rs2, by decide⟩, ⟨13, w.immB, by decide⟩], rfl⟩
  | .U => ⟨.U, [⟨5, w.rd, by decide⟩, ⟨20, w.immU, by decide⟩], rfl⟩
  | .J => ⟨.J, [⟨5, w.rd, by decide⟩, ⟨21, w.immJ, by decide⟩], rfl⟩

end Word

section Decoder

def loadOpcode? : (funct3 : BitVec 3) → Option Opcode
  | 0b000 => some .lb
  | 0b001 => some .lh
  | 0b010 => some .lw
  | 0b100 => some .lbu
  | 0b101 => some .lhu
  | _ => none

/-- The operations with an immediate. A shift has its upper code above the amount. -/
def immediateOpcode? : (funct3 : BitVec 3) → (funct7 : BitVec 7) → Option Opcode
  | 0b000, _ => some .addi
  | 0b010, _ => some .slti
  | 0b011, _ => some .sltiu
  | 0b100, _ => some .xori
  | 0b110, _ => some .ori
  | 0b111, _ => some .andi
  | 0b001, 0b0000000 => some .slli
  | 0b101, 0b0000000 => some .srli
  | 0b101, 0b0100000 => some .srai
  | _, _ => none

def storeOpcode? : (funct3 : BitVec 3) → Option Opcode
  | 0b000 => some .sb
  | 0b001 => some .sh
  | 0b010 => some .sw
  | _ => none

def multiplicationOpcode : (funct3 : BitVec 3) → Opcode
  | 0b000 => .mul
  | 0b001 => .mulh
  | 0b010 => .mulhsu
  | 0b011 => .mulhu
  | 0b100 => .div
  | 0b101 => .divu
  | 0b110 => .rem
  | _ => .remu

/-- The operations on two registers. Multiplications and divisions have to be switched on. -/
def registerOpcode? (multiplication : Bool) : (funct7 : BitVec 7) → (funct3 : BitVec 3) → Option Opcode
  | 0b0000000, 0b000 => some .add
  | 0b0100000, 0b000 => some .sub
  | 0b0000000, 0b001 => some .sll
  | 0b0000000, 0b010 => some .slt
  | 0b0000000, 0b011 => some .sltu
  | 0b0000000, 0b100 => some .xor
  | 0b0000000, 0b101 => some .srl
  | 0b0100000, 0b101 => some .sra
  | 0b0000000, 0b110 => some .or
  | 0b0000000, 0b111 => some .and
  | 0b0000001, funct3 => if multiplication then some (multiplicationOpcode funct3) else none
  | _, _ => none

def branchOpcode? : (funct3 : BitVec 3) → Option Opcode
  | 0b000 => some .beq
  | 0b001 => some .bne
  | 0b100 => some .blt
  | 0b101 => some .bge
  | 0b110 => some .bltu
  | 0b111 => some .bgeu
  | _ => none

/-- The instruction that a word is, if it is one under the extensions. The major opcode tells the layout. -/
def decode (w : Word) (extensions : Extensions) : Option (Decoded Opcode) :=
  let inLayout (format : Format) (opcode : Opcode) : Decoded Opcode := ⟨opcode, w.operands format⟩
  if w.quadrant = 0b11 then
    match w.major with
    | 0b00000 => (loadOpcode? w.funct3).map (inLayout .I)
    | 0b00100 => (immediateOpcode? w.funct3 w.funct7).map (inLayout .I)
    | 0b00101 => some (inLayout .U .auipc)
    | 0b01000 => (storeOpcode? w.funct3).map (inLayout .S)
    | 0b01100 => (registerOpcode? extensions.m w.funct7 w.funct3).map (inLayout .R)
    | 0b01101 => some (inLayout .U .lui)
    | 0b11000 => (branchOpcode? w.funct3).map (inLayout .B)
    | 0b11011 => some (inLayout .J .jal)
    | _ => none
  else none

end Decoder

/-- The fixed bits of an instruction: the major opcode and, where its layout has them and the instruction
    fixes them, the minor ones. -/
structure Pattern where
  major : BitVec 5
  funct3 : Option (BitVec 3)
  funct7 : Option (BitVec 7)

def Opcode.pattern : Opcode → Pattern
  | .lui => ⟨0b01101, none, none⟩
  | .auipc => ⟨0b00101, none, none⟩
  | .jal => ⟨0b11011, none, none⟩
  | .beq => ⟨0b11000, some 0b000, none⟩
  | .bne => ⟨0b11000, some 0b001, none⟩
  | .blt => ⟨0b11000, some 0b100, none⟩
  | .bge => ⟨0b11000, some 0b101, none⟩
  | .bltu => ⟨0b11000, some 0b110, none⟩
  | .bgeu => ⟨0b11000, some 0b111, none⟩
  | .lb => ⟨0b00000, some 0b000, none⟩
  | .lh => ⟨0b00000, some 0b001, none⟩
  | .lw => ⟨0b00000, some 0b010, none⟩
  | .lbu => ⟨0b00000, some 0b100, none⟩
  | .lhu => ⟨0b00000, some 0b101, none⟩
  | .sb => ⟨0b01000, some 0b000, none⟩
  | .sh => ⟨0b01000, some 0b001, none⟩
  | .sw => ⟨0b01000, some 0b010, none⟩
  | .addi => ⟨0b00100, some 0b000, none⟩
  | .slti => ⟨0b00100, some 0b010, none⟩
  | .sltiu => ⟨0b00100, some 0b011, none⟩
  | .xori => ⟨0b00100, some 0b100, none⟩
  | .ori => ⟨0b00100, some 0b110, none⟩
  | .andi => ⟨0b00100, some 0b111, none⟩
  | .slli => ⟨0b00100, some 0b001, some 0b0000000⟩
  | .srli => ⟨0b00100, some 0b101, some 0b0000000⟩
  | .srai => ⟨0b00100, some 0b101, some 0b0100000⟩
  | .add => ⟨0b01100, some 0b000, some 0b0000000⟩
  | .sub => ⟨0b01100, some 0b000, some 0b0100000⟩
  | .sll => ⟨0b01100, some 0b001, some 0b0000000⟩
  | .slt => ⟨0b01100, some 0b010, some 0b0000000⟩
  | .sltu => ⟨0b01100, some 0b011, some 0b0000000⟩
  | .xor => ⟨0b01100, some 0b100, some 0b0000000⟩
  | .srl => ⟨0b01100, some 0b101, some 0b0000000⟩
  | .sra => ⟨0b01100, some 0b101, some 0b0100000⟩
  | .or => ⟨0b01100, some 0b110, some 0b0000000⟩
  | .and => ⟨0b01100, some 0b111, some 0b0000000⟩
  | .mul => ⟨0b01100, some 0b000, some 0b0000001⟩
  | .mulh => ⟨0b01100, some 0b001, some 0b0000001⟩
  | .mulhsu => ⟨0b01100, some 0b010, some 0b0000001⟩
  | .mulhu => ⟨0b01100, some 0b011, some 0b0000001⟩
  | .div => ⟨0b01100, some 0b100, some 0b0000001⟩
  | .divu => ⟨0b01100, some 0b101, some 0b0000001⟩
  | .rem => ⟨0b01100, some 0b110, some 0b0000001⟩
  | .remu => ⟨0b01100, some 0b111, some 0b0000001⟩

/-- The word of an instruction: its fixed bits and its operands, each where its layout has it. A field that
    the operands lack is zero. -/
def encode (opcode : Opcode) (operands : Operands) : Word :=
  let field (width : Nat) (f : Field) : BitVec width :=
    BitVec.ofNat width (((operands.get? f).map Bits.toNat).getD 0)
  let rd := field 5 .rd
  let rs1 := field 5 .rs1
  let rs2 := field 5 .rs2
  let funct3 := opcode.pattern.funct3.getD 0
  let funct7 := opcode.pattern.funct7.getD 0
  let low := opcode.pattern.major ++ 0b11#2
  match opcode.format with
  | .R => funct7 ++ rs2 ++ rs1 ++ funct3 ++ rd ++ low
  | .I => field 12 .imm ++ rs1 ++ funct3 ++ rd ++ low
  | .S =>
    let imm := field 12 .imm
    imm.extractLsb' 5 7 ++ rs2 ++ rs1 ++ funct3 ++ imm.extractLsb' 0 5 ++ low
  | .B =>
    let imm := field 13 .imm
    imm.extractLsb' 12 1 ++ imm.extractLsb' 5 6 ++ rs2 ++ rs1 ++ funct3 ++ imm.extractLsb' 1 4 ++
      imm.extractLsb' 11 1 ++ low
  | .U => field 20 .imm ++ rd ++ low
  | .J =>
    let imm := field 21 .imm
    imm.extractLsb' 20 1 ++ imm.extractLsb' 1 10 ++ imm.extractLsb' 11 1 ++ imm.extractLsb' 12 8 ++
      rd ++ low

end RiscvSemantics.Rv32
