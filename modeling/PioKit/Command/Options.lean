import PioKit.WordFile.Basic

/-!
# Options of the command

`[-v] [-f FORMAT] [-o OUTPUT] INPUT`, and `-V`. Options have a short and a long name. Short names
may be joined to each other and to a value, a long name takes its value after an equals sign, and a
value may also be the next argument, unless that looks like an option itself. After `--` no argument
is an option. Nothing may be given twice, and no value may be empty.

Arguments are taken in order, and the first one that is refused or asks for the version ends the
reading. There is no help text: `-h` and `--help` are refused like any unknown option.
-/

namespace PioKit.Command

/-- What the command is asked to do. -/
structure Options where
  /-- The path of the program text. -/
  input : String
  /-- The path of the word file, if one is given. -/
  output : Option String
  /-- The format of the word file. -/
  format : WordFile.Format
  /-- Show more of the journal. -/
  verbose : Bool
  deriving DecidableEq, Repr

/-- Why no options come out of the arguments. -/
inductive Stop where
  /-- The arguments do not follow the grammar. -/
  | refused
  /-- The version is asked for. -/
  | version
  deriving DecidableEq, Repr

/-- The options that take a value. -/
inductive ValueOption where
  /-- `-o`, `--output` -/
  | output
  /-- `-f`, `--format` -/
  | format
  deriving DecidableEq, Repr

/-- What the arguments read so far amount to. -/
structure Draft where
  /-- The input, if it has been given. -/
  input : Option String
  /-- The output, if it has been given. -/
  output : Option String
  /-- The format, if it has been given. -/
  format : Option WordFile.Format
  /-- `-v` has been given. -/
  verbose : Bool
  deriving DecidableEq, Repr

namespace Draft

/-- Nothing has been given. -/
def empty : Draft where
  input := none
  output := none
  format := none
  verbose := false

/-- Takes the input. -/
def setInput (d : Draft) (value : String) : Except Stop Draft :=
  if value = "" ∨ d.input.isSome then .error .refused
  else .ok { d with input := some value }

/-- Takes the value of an option. -/
def setValue (d : Draft) (option : ValueOption) (value : String) : Except Stop Draft :=
  match option with
  | .output =>
    if value = "" ∨ d.output.isSome then .error .refused
    else .ok { d with output := some value }
  | .format =>
    match WordFile.Format.ofName? false value, d.format with
    | some format, none => .ok { d with format := some format }
    | _, _ => .error .refused

/-- Takes `-v`. -/
def setVerbose (d : Draft) : Except Stop Draft :=
  if d.verbose then .error .refused else .ok { d with verbose := true }

/-- Reads the value that is joined to a short option, with or without an equals sign. If there is
none, the option is returned, for its value is the next argument. -/
def readJoined (d : Draft) (option : ValueOption) :
    List Char → Except Stop (Draft × Option ValueOption)
  | [] => .ok (d, some option)
  | '=' :: value => do return (← d.setValue option (String.ofList value), none)
  | value => do return (← d.setValue option (String.ofList value), none)

/-- Reads joined short options. An option that is returned still lacks its value. -/
def readShort (d : Draft) : List Char → Except Stop (Draft × Option ValueOption)
  | [] => .ok (d, none)
  | 'v' :: rest => do readShort (← d.setVerbose) rest
  | 'V' :: _ => .error .version
  | 'o' :: rest => d.readJoined .output rest
  | 'f' :: rest => d.readJoined .format rest
  | _ => .error .refused

/-- Reads a long option with the value that is joined to it, if there is one. -/
def readLong (d : Draft) (name : String) (value : Option String) :
    Except Stop (Draft × Option ValueOption) :=
  match name, value with
  | "output", none => .ok (d, some .output)
  | "output", some value => do return (← d.setValue .output value, none)
  | "format", none => .ok (d, some .format)
  | "format", some value => do return (← d.setValue .format value, none)
  | "verbose", none => do return (← d.setVerbose, none)
  | "version", none => .error .version
  | _, _ => .error .refused

/-- The text before the first equals sign and the text after it. -/
def splitValue (cs : List Char) : String × Option String :=
  match cs.dropWhile (· != '=') with
  | [] => (String.ofList cs, none)
  | _ :: value => (String.ofList (cs.takeWhile (· != '=')), some (String.ofList value))

/-- Reads one argument. A dash alone is a value. -/
def readArgument (d : Draft) (argument : String) : Except Stop (Draft × Option ValueOption) :=
  match argument.toList with
  | '-' :: '-' :: rest => let (name, value) := splitValue rest; d.readLong name value
  | '-' :: c :: rest => d.readShort (c :: rest)
  | _ => do return (← d.setInput argument, none)

/-- An argument that starts with a dash, but is more than a dash, is no value. -/
def looksLikeOption (argument : String) : Bool :=
  match argument.toList with
  | '-' :: _ :: _ => true
  | _ => false

/-- Reads the arguments in order. -/
def readArguments (d : Draft) : List String → Except Stop Draft
  | [] => .ok d
  | argument :: rest =>
    if argument = "--" then rest.foldlM setInput d
    else
      match d.readArgument argument, rest with
      | .error stop, _ => .error stop
      | .ok (d, none), rest => readArguments d rest
      | .ok (_, some _), [] => .error .refused
      | .ok (d, some option), value :: rest =>
        if looksLikeOption value then .error .refused
        else
          match d.setValue option value with
          | .error stop => .error stop
          | .ok d => readArguments d rest

/-- The options, if the input has been given. -/
def toOptions (d : Draft) : Except Stop Options :=
  match d.input with
  | none => .error .refused
  | some input => .ok {
      input
      output := d.output
      format := d.format.getD .binary
      verbose := d.verbose }

end Draft

/-- The options that the arguments of the command give. -/
def Options.parse (arguments : List String) : Except Stop Options := do
  (← Draft.empty.readArguments arguments).toOptions

end PioKit.Command
