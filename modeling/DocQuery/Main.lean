import DocQuery.CommandLine.Run

set_option autoImplicit false

open DocQuery CommandLine

def readText (path : String) : IO FileText := do
  try
    return FileText.ofBytes (← IO.FS.readBinFile path)
  catch e =>
    match e with
    | .noFileOrDirectory .. => return .error .notFound
    | .inappropriateType _ 20 _ => return .error .notDirectory
    | .inappropriateType .. => return .error .isDirectory
    | .invalidArgument _ 36 _ => return .error .nameTooLong
    | e => return .error (.other (toString e))

partial def readAll (stream : IO.FS.Stream) (bytes : ByteArray) : IO ByteArray := do
  let chunk ← stream.read 65536
  if chunk.isEmpty then return bytes else readAll stream (bytes ++ chunk)

def usageText : String :=
  "Usage: <compile|explain> --catalog <CATALOG> [--config <CONFIG>]"

def runCommand (arguments : Arguments) : IO UInt32 := do
  let catalog ← readText arguments.catalog
  let config ← match arguments.config with
    | some path => readText path
    | none => pure (.error .notFound)
  let files := fun path => if path = arguments.catalog then catalog else config
  let stdin := FileText.ofBytes (← readAll (← IO.getStdin) ByteArray.empty)
  let outcome := run .info arguments files stdin
  outcome.log.forM IO.eprintln
  IO.print outcome.stdout
  match outcome.failure with
  | some failure => IO.eprintln failure.display
  | none => pure ()
  return outcome.exitCode.toUInt32

def main (args : List String) : IO UInt32 := do
  match Arguments.read args with
  | .ok arguments => runCommand arguments
  | .error usage =>
    IO.eprintln usageText
    return usage.exitCode.toUInt32
