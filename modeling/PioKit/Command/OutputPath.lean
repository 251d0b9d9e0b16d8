import PioKit.Command.Options

/-!
# Where the output goes

Without `-o` the output of a file goes beside it, under the same name with the extension of the
format. The extension of a name is what follows its last dot; a dot that the name starts with is
part of the name. A dash stands for standard input and standard output.
-/

namespace PioKit.Command

/-- The path of standard input and standard output. -/
def standardPath : String := "-"

/-- A file name with its extension replaced, or added if it has none. A name that consists of two
dots once its extension is cut off means the directory above, and stays so. -/
def renameExtension (name extension : List Char) : List Char :=
  let ending := (name.reverse.takeWhile (· != '.')).reverse
  let stem := name.take (name.length - ending.length - 1)
  if stem.isEmpty then name ++ '.' :: extension
  else if stem = ['.'] then ['.', '.']
  else stem ++ '.' :: extension

/-- A path with the extension of its file name replaced. A path that ends in a slash, `.` or `..` stays
as it is, also if there is a file name further in front, as in `a/` and `a/.`: these paths are those of
directories, so no program is ever read from them and no output goes to what is returned here. -/
def withExtension (path extension : String) : String :=
  let name := (path.toList.reverse.takeWhile (· != '/')).reverse
  let directory := path.toList.take (path.length - name.length)
  if name = [] ∨ name = ['.'] ∨ name = ['.', '.'] then path
  else String.ofList (directory ++ renameExtension name extension.toList)

/-- The path that the output goes to. -/
def Options.outputPath (o : Options) : String :=
  match o.output with
  | some path => path
  | none =>
    if o.input = standardPath then standardPath
    else withExtension o.input o.format.extension

end PioKit.Command
