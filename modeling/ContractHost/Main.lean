import ContractHost.CommandLine

/-!
# The program

Reads files for the command line, prints what a run leaves behind and exits with its code.
-/

namespace ContractHost

/-- The number of a system error. Some functions report it with the opposite sign. -/
def errorNumber (code : UInt32) : Nat :=
  if code < 0x80000000 then code.toNat else (0 - code).toNat

/-- What a failed read means to a reader of files. -/
def fileError (e : IO.Error) : FileError :=
  match e with
  | .noFileOrDirectory .. => .notFound
  | .inappropriateType _ code _ => if errorNumber code = 21 then .isDirectory else .notDirectory
  | .invalidArgument _ code _ =>
    match errorNumber code with
    | 22 => .nulInName
    | 36 => .nameTooLong
    | _ => .other (toString e)
  | .permissionDenied _ code _ =>
    if errorNumber code = 13 then .other "Permission denied (os error 13)" else .other (toString e)
  | e => .other (toString e)

/-- The content of a file on this machine. -/
def readFile (path : String) : IO (Except FileError (List UInt8)) := do
  try
    let bytes ← IO.FS.readBinFile path
    return .ok bytes.toList
  catch e =>
    return .error (fileError e)

end ContractHost

/-- Run the command line on the file system. -/
def main (args : List String) : IO UInt32 := do
  let outcome ← ContractHost.CommandLine.run ContractHost.readFile args
  IO.print outcome.output
  IO.eprint outcome.errors
  return outcome.exitCode.toUInt32
