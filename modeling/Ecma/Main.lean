import Ecma.Session

/-! The command line: a file or `--eval CODE`, with `--tokens` or `--ast`; with neither, lines of
standard input. -/

namespace Ecma.CommandLine

/-- The options of the command line. -/
structure Options where
  file : Option String := none
  code : Option String := none
  tokens : Bool := false
  tree : Bool := false

/-- Reads the options; nothing if they are not understood. -/
def Options.read (o : Options) : List String → Option Options
  | [] => some o
  | "-e" :: code :: rest | "--eval" :: code :: rest => read { o with code := some code } rest
  | "--tokens" :: rest => read { o with tokens := true } rest
  | "--ast" :: rest => read { o with tree := true } rest
  | path :: rest =>
    if path.startsWith "-" || o.file.isSome then none else read { o with file := some path } rest

/-- The text of a file. -/
def readFile (path : String) : IO (Except FileError String) := do
  try return Source.decode (← IO.FS.readBinFile path)
  catch
    | .noFileOrDirectory .. => return .error .missing
    | e => return .error (.other (toString e))

/-- Writes a transcript; gives the exit code. -/
def finish (t : Transcript) : IO UInt32 := do
  IO.print t.output
  IO.eprint t.errors
  return if t.success then 0 else 1

/-- Reads lines until the input ends. -/
partial def converse (mode : Mode) (s : State) : IO Unit := do
  IO.print Session.prompt
  (← IO.getStdout).flush
  let input ← (← IO.getStdin).getLine
  if input.isEmpty then IO.println ""
  else
    let (r, s) := Session.feed mode input s
    IO.print (r.output ++ Session.line r.value)
    IO.eprint (Session.line r.error)
    converse mode s

/-- Runs the program. -/
def run (o : Options) : IO UInt32 := do
  let mode := Mode.ofFlags o.tokens o.tree
  match o.code, o.file with
  | some code, _ => finish (Session.transcript mode (.inline code))
  | none, some path => finish (Session.transcript mode (.file path (← readFile path)))
  | none, none =>
    IO.print Session.greeting
    converse mode State.initial
    return 0

end Ecma.CommandLine

/-- The entry point of the command line. -/
def main (args : List String) : IO UInt32 := do
  match Ecma.CommandLine.Options.read {} args with
  | some o => Ecma.CommandLine.run o
  | none =>
    IO.eprintln "usage: [FILE] [-e CODE] [--tokens | --ast]"
    return 2
