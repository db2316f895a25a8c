namespace RiscvSemantics

/-- Why a hart traps. -/
inductive Cause where
  | misalignedPc
  | instructionFault
  | illegalInstruction
  | breakpoint
  | misalignedLoad
  | loadFault
  | misalignedStore
  | storeFault
  | ecallFromUser
  | ecallFromSupervisor
  | ecallFromMachine
  | instructionPageFault
  | loadPageFault
  | storePageFault
deriving DecidableEq

namespace Cause

/-- All causes, in the order of their codes. -/
def all : List Cause :=
  [.misalignedPc, .instructionFault, .illegalInstruction, .breakpoint, .misalignedLoad, .loadFault,
    .misalignedStore, .storeFault, .ecallFromUser, .ecallFromSupervisor, .ecallFromMachine,
    .instructionPageFault, .loadPageFault, .storePageFault]

/-- The code that the machine cause register takes. -/
def code : Cause → Nat
  | .misalignedPc => 0
  | .instructionFault => 1
  | .illegalInstruction => 2
  | .breakpoint => 3
  | .misalignedLoad => 4
  | .loadFault => 5
  | .misalignedStore => 6
  | .storeFault => 7
  | .ecallFromUser => 8
  | .ecallFromSupervisor => 9
  | .ecallFromMachine => 11
  | .instructionPageFault => 12
  | .loadPageFault => 13
  | .storePageFault => 15

def name : Cause → String
  | .misalignedPc => "MisalignedPC"
  | .instructionFault => "InstructionFault"
  | .illegalInstruction => "IllegalInstruction"
  | .breakpoint => "Breakpoint"
  | .misalignedLoad => "MisalignedLoad"
  | .loadFault => "LoadFault"
  | .misalignedStore => "MisalignedStore"
  | .storeFault => "StoreFault"
  | .ecallFromUser => "EcallFromUmode"
  | .ecallFromSupervisor => "EcallFromSmode"
  | .ecallFromMachine => "EcallFromMmode"
  | .instructionPageFault => "InstructionPageFault"
  | .loadPageFault => "LoadPageFault"
  | .storePageFault => "StorePageFault"

/-- The cause with a name. -/
def ofName? (s : String) : Option Cause :=
  all.find? (·.name == s)

/-- The name with the code: `LoadFault (mcause 5)`. -/
def display (cause : Cause) : String :=
  s!"{cause.name} (mcause {cause.code})"

end Cause

end RiscvSemantics
