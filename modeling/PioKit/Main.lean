import PioKit.Command.Run

/-!
# The command

Connects `PioKit.Command.run` to the real files and streams.
-/

namespace PioKit.Command

/-- The fault that an error of the file system stands for. -/
def faultOf (error : IO.Error) : FileFault :=
  match error with
  | .noFileOrDirectory .. => .notFound
  | .inappropriateType _ code _ =>
    if code = 21 ∨ code = 0 - 21 then .isADirectory else .notADirectory
  | .invalidArgument _ code _ =>
    if code = 36 ∨ code = 0 - 36 then .nameTooLong else .other error.toString
  | error => .other error.toString

/-- The operations of a run on the real files and streams. -/
def systemHost : Host IO where
  readInput := do return (← (← IO.getStdin).readBinToEnd).toList
  readFile path := do
    try
      return .ok (← IO.FS.readBinFile path).toList
    catch error => return .error (faultOf error)
  writeFile path bytes := do
    try
      IO.FS.writeBinFile path bytes.toByteArray
      return .ok ()
    catch error => return .error (faultOf error)
  writeOutput bytes := do
    let stream ← IO.getStdout
    stream.write bytes.toByteArray
    stream.flush
  writeError text := do (← IO.getStderr).putStr text

end PioKit.Command

/-- Runs the command and reports how it ended. The environment may set the log threshold. -/
def main (arguments : List String) : IO UInt32 := do
  let setting ← IO.getEnv "RUST_LOG"
  let result ← PioKit.Command.run .standard PioKit.Command.systemHost arguments setting
  return result.code.toUInt32
