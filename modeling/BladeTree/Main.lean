import BladeTree.Cli.Run

namespace BladeTree.Cli

def usage : String :=
  "usage: bladetree COMMAND [FILE | - | -s TEXT] [OPTIONS]\n" ++
    "commands: " ++ ", ".intercalate (Command.all.map (·.name)) ++ "\n" ++
    "options: " ++ ", ".intercalate (Opt.table.map fun (name, _) => "--" ++ name) ++ "\n"

def readFault : IO.Error → ReadFault
  | .noFileOrDirectory .. => .missing
  | .permissionDenied .. => .denied
  | .inappropriateType _ code _ => if code = 21 then .isADirectory else .notADirectory
  | .invalidArgument _ code _ => if code = 36 then .nameTooLong else .other code
  | .otherError code _ => .other code
  | _ => .other 5

partial def readAll (s : IO.FS.Stream) (read : ByteArray) : IO ByteArray := do
  let next ← s.read 65536
  if next.isEmpty then return read else readAll s (read ++ next)

def decode (bytes : ByteArray) : Except ReadFault String :=
  match String.fromUTF8? bytes with
  | some text => .ok text
  | none => .error .notUtf8

def readSource : InputSource → IO (Except ReadFault String)
  | .text text => return .ok text
  | .standardInput => return decode (← readAll (← IO.getStdin) .empty)
  | .file path => do
    try return decode (← IO.FS.readBinFile path)
    catch e => return .error (readFault e)

end BladeTree.Cli

open BladeTree.Cli in
def main (args : List String) : IO UInt32 := do
  match readCommandLine args with
  | .error .help => IO.print usage; return 0
  | .error .misuse => IO.eprint usage; return 2
  | .ok (command, arguments) =>
    let terminal := (← IO.getEnv "NO_COLOR").isNone && (← (← IO.getStderr).isTty)
    let outcome ← run readSource terminal command arguments
    IO.print outcome.output
    IO.eprint outcome.errors
    return outcome.exitCode.toUInt32
