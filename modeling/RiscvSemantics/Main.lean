import RiscvSemantics.Command.Job

namespace RiscvSemantics.Command

/-- What the operating system says about a failure, with its number. -/
def failureReason : IO.Error → String
  | .noFileOrDirectory _ code details | .permissionDenied _ code details
  | .inappropriateType _ code details | .invalidArgument _ code details =>
    s!"{details} (os error {code})"
  | e => toString e

/-- Reads a file that has been opened. -/
def readOpened (handle : IO.FS.Handle) : IO ImageFile := do
  try
    return .content (← handle.readBinToEnd)
  catch e =>
    return .unread (failureReason e)

/-- Opens and reads the image. -/
def readImage (path : String) : IO ImageFile := do
  try
    readOpened (← IO.FS.Handle.mk path .read)
  catch e =>
    return .unopened (failureReason e)

/-- Prints a report and gives its exit code. -/
def deliver (report : Report) : IO UInt32 := do
  IO.print report.stdout
  for line in report.stderr do
    IO.eprintln line
  return UInt32.ofNat report.code

end RiscvSemantics.Command

open RiscvSemantics.Command

/-- Loads a memory image and runs it on an RV32IM hart. -/
def main (arguments : List String) : IO UInt32 := do
  deliver (← answer readImage arguments)
