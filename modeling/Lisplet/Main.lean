import Lisplet.CommandLine
/-!
# The executable
-/

namespace Lisplet.CommandLine

/-- Reads a file, or says why it cannot be read. -/
def readSource (name : String) : IO (Except ReadFailure (List UInt8)) := do
  try
    return .ok (← IO.FS.readBinFile name).data.toList
  catch
    | .noFileOrDirectory .. => return .error .notFound
    | .inappropriateType _ 21 _ => return .error .isDirectory
    | .inappropriateType .. => return .error .notDirectory
    | .permissionDenied .. => return .error .notPermitted
    | .invalidArgument .. => return .error .nameTooLong
    | e => return .error (.other e.toString)

/-- Reads the files that the arguments name, and does what they ask. -/
def perform (arguments : List String) : IO UInt32 := do
  let names := match Request.ofArguments arguments with
    | .ok (.run options) => options.files
    | _ => []
  let contents ← names.mapM fun name => return (name, ← readSource name)
  let storage : Storage := fun name => (contents.lookup name).getD (.error .notFound)
  match execute ampleFuel storage arguments with
  | some report =>
    IO.print report.standardOutput
    IO.eprint report.standardError
    return report.exitStatus.toUInt32
  | none =>
    IO.eprintln "ERROR: out of fuel"
    return 1

end Lisplet.CommandLine

def main (arguments : List String) : IO UInt32 := Lisplet.CommandLine.perform arguments
