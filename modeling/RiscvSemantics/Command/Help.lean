namespace RiscvSemantics.Command

/-- How the command is used. -/
def helpText : String :=
  "Width-exact bit-vector arithmetic and a formula interpreter for RISC-V instruction semantics

Usage: formulabox [OPTIONS] <IMAGE>

Arguments:
  <IMAGE>  Path to a \"v2.0 raw\" Logisim memory image

Options:
      --steps <STEPS>        Maximum number of instructions to execute [default: 1000]
      --isa <ISA>            ISA string, e.g. \"rv32i\" or \"rv32im\" [default: rv32im]
      --entry <ENTRY>        Address the image is loaded at and execution starts from [default: 0]
      --ram-size <RAM_SIZE>  Size of RAM in bytes [default: 16777216]
  -v, --verbose...           More output. Repeat for more
  -h, --help                 Print help
  -V, --version              Print version
"

/-- The name of the program and its version. -/
def versionText : String :=
  "rvformula 0.1.0\n"

end RiscvSemantics.Command
