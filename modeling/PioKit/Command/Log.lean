import PioKit.Assembly
import PioKit.Text.Terminal

/-!
# Log lines

Which messages a run shows, and how. Messages up to a threshold are shown; the threshold comes from
the environment if the setting there is the name of a level or `off`, else from the verbosity. A message may quote the source, so
its line is cleared of control characters before it reaches a terminal.
-/

namespace PioKit.Command

/-- The least important level that is shown; `none` shows nothing. -/
abbrev Threshold := Option Level

namespace Threshold

/-- A level is shown if it is at least as important as the threshold. -/
def shows (threshold : Threshold) (level : Level) : Bool :=
  match threshold with
  | none => false
  | some least => level.rank ≤ least.rank

/-- The threshold of the given name, in capitals or small letters. -/
def ofName? (name : String) : Option Threshold :=
  match String.ofList (name.toList.map Char.toLower) with
  | "off" => some none
  | "error" => some (some .error)
  | "warn" => some (some .warn)
  | "info" => some (some .info)
  | "debug" => some (some .debug)
  | "trace" => some (some .trace)
  | _ => none

/-- The threshold of a run. -/
def ofRun (verbose : Bool) (setting : Option String) : Threshold :=
  match setting.bind ofName? with
  | some threshold => threshold
  | none => if verbose then some .debug else some .warn

end Threshold

/-- A line break inside a message is followed by four blanks. -/
def indentBreak (c : Char) : List Char :=
  if c = '\n' then ['\n', ' ', ' ', ' ', ' '] else [c]

/-- The line of a message, in plain text. A control string that the message leaves open takes the
line break at the end with it. -/
def logLine (level : Level) (message : String) : String :=
  let heading := "[" ++ padRight 5 level.name ++ "] "
  let text := message.toList.flatMap indentBreak
  String.ofList (Text.Terminal.plain (heading.toList ++ text ++ ['\n']))

end PioKit.Command
