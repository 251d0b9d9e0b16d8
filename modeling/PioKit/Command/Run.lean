import PioKit.Command.Log
import PioKit.Command.OutputPath
import PioKit.FileTree
import PioKit.WordFile

/-!
# Running the command

A run reads the program text, assembles it and writes the words. It reaches the outside only through
a `Host`, whose operations live in any monad: for the real command that is `IO`, and for reasoning
it is the state monad over a `Session`, a file tree with the standard streams. How arguments and the
log setting are read is a parameter too, a `Frontend`, so that what holds of a run holds of it with any
grammar of arguments.
-/

namespace PioKit.Command

/-! ## The outside -/

/-- What a run needs from the outside. -/
structure Host (m : Type → Type) where
  /-- All of standard input. -/
  readInput : m (List UInt8)
  /-- The bytes of a file. -/
  readFile : String → m (Except FileFault (List UInt8))
  /-- Makes or replaces a file. -/
  writeFile : String → List UInt8 → m (Except FileFault Unit)
  /-- Appends to standard output. -/
  writeOutput : List UInt8 → m Unit
  /-- Appends to standard error. -/
  writeError : String → m Unit

/-- How a run ends. -/
inductive Exit where
  /-- The words were written, or the version was shown. -/
  | success
  /-- Something failed. -/
  | failure
  /-- The arguments were refused. -/
  | usage
  deriving DecidableEq, Repr

/-- The number by which the end of a run is reported. -/
def Exit.code : Exit → Nat
  | .success => 0
  | .failure => 1
  | .usage => 2

section Run

variable {m : Type → Type} [Monad m]

namespace Host

/-- Shows a message if its level is shown. -/
def log (host : Host m) (threshold : Threshold) (level : Level) (message : String) : m Unit :=
  if threshold.shows level then host.writeError (logLine level message) else pure ()

/-- Reports a failure. -/
def fail (host : Host m) (context cause : String) : m Exit := do
  host.writeError s!"Error: {context}: {cause}\n"
  return .failure

/-- Reads a program text. -/
def readText (host : Host m) (path : String) : m (Except FileFault String) := do
  let bytes ← if path = standardPath then Except.ok <$> host.readInput else host.readFile path
  return bytes >>= fun bytes =>
    match Text.Utf8.decode? bytes with
    | some cs => .ok (String.ofList cs)
    | none => .error .notText

/-- Writes a word file. -/
def writeBytes (host : Host m) (path : String) (bytes : List UInt8) :
    m (Except FileFault Unit) :=
  if path = standardPath then Except.ok <$> host.writeOutput bytes
  else host.writeFile path bytes

end Host

/-! ## The run -/

/-- Runs the command with the given options. -/
def Options.run (host : Host m) (threshold : Threshold) (o : Options) : m Exit := do
  match ← host.readText o.input with
  | .error fault => host.fail s!"Failed to read input file: {o.input}" fault.message
  | .ok text =>
    host.log threshold .info s!"Assembling file: {o.input}"
    let assembling := (assembling text).run
    assembling.reports.forM fun report => host.log threshold report.level report.message
    match assembling.result with
    | .error e => host.fail "Assembly failed" e.message
    | .ok assembly =>
      let name := assembly.name.getD "<unnamed>"
      host.log threshold .info
        s!"Assembled program {name}: {assembly.code.length} words ({assembly.byteSize} bytes)"
      let path := o.outputPath
      match ← host.writeBytes path (WordFile.write o.format assembly.code) with
      | .error fault => host.fail s!"Failed to write output to: {path}" fault.message
      | .ok () =>
        host.log threshold .info s!"Output written to: {path}"
        return .success

/-- What `-V` shows. -/
def versionLine : String := "pioasm-cli 0.1.0\n"

/-- What is shown when the arguments are refused. -/
def usageLine : String := "usage: pioasm [-v] [-f binary|hex|text|array] [-o OUTPUT] INPUT\n"

/-- How a run understands its arguments and the log setting of the environment. -/
structure Frontend where
  /-- The options that the arguments give. -/
  parse : List String → Except Stop Options
  /-- Which messages are shown, by the verbosity and the log setting. -/
  threshold : Bool → Option String → Threshold

/-- The grammar of `Options.parse`, and the log settings that are the name of a level. -/
def Frontend.standard : Frontend where
  parse := Options.parse
  threshold := Threshold.ofRun

/-- Runs the command with the given arguments and log setting of the environment. -/
def run (frontend : Frontend) (host : Host m) (arguments : List String)
    (setting : Option String) : m Exit :=
  match frontend.parse arguments with
  | .error .refused => do
    host.writeError usageLine
    return .usage
  | .error .version => do
    host.writeOutput (Text.Utf8.encode versionLine.toList)
    return .success
  | .ok o => o.run host (frontend.threshold o.verbose setting)

end Run

/-! ## Sessions -/

/-- The outside as a value. -/
structure Session where
  /-- The files. -/
  tree : FileTree
  /-- What standard input holds. -/
  input : List UInt8
  /-- What has been written to standard output. -/
  output : List UInt8
  /-- What has been written to standard error. -/
  errors : String
  deriving DecidableEq, Repr

namespace Session

/-- A session in which nothing has been written yet. -/
def start (tree : FileTree) (input : List UInt8) : Session where
  tree := tree
  input := input
  output := []
  errors := ""

/-- The operations of a run on a session. -/
def host : Host (StateM Session) where
  readInput := do return (← get).input
  readFile path := do return (← get).tree.read path
  writeFile path bytes := do
    let session ← get
    match session.tree.write path bytes with
    | .error fault => return .error fault
    | .ok tree =>
      set { session with tree }
      return .ok ()
  writeOutput bytes := modify fun session => { session with output := session.output ++ bytes }
  writeError text := modify fun session => { session with errors := session.errors ++ text }

/-- The session after a run of the command, and how the run ends. -/
def runWith (frontend : Frontend) (session : Session) (arguments : List String)
    (setting : Option String) : Exit × Session :=
  (Command.run frontend host arguments setting).run session

/-- A run with the standard frontend. -/
def run (session : Session) (arguments : List String) (setting : Option String) :
    Exit × Session :=
  session.runWith .standard arguments setting

end Session

end PioKit.Command
