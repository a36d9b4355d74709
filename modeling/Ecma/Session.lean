import Ecma.Ast.Outline
import Ecma.Eval.Script
import Ecma.Realm

/-! Sessions: what the program writes for a script, a file of one, or lines that are typed in. -/

namespace Ecma

/-- What is done with a script. -/
inductive Mode where
  | evaluate
  | tokens
  | tree
deriving Repr, DecidableEq, Inhabited

namespace Mode

/-- The mode that the options ask for. -/
def ofFlags (tokens tree : Bool) : Mode :=
  if tokens then .tokens else if tree then .tree else .evaluate

end Mode

/-- Why a file gives no script. -/
inductive FileError where
  | missing
  | notText
  | other (message : String)
deriving Repr, DecidableEq

namespace FileError

def message : FileError → String
  | .missing => "No such file or directory (os error 2)"
  | .notText => "stream did not contain valid UTF-8"
  | .other message => message

end FileError

/-- Where a script comes from. -/
inductive Source where
  | inline (code : String)
  | file (path : String) (content : Except FileError String)
  | lines (input : String)

namespace Source

/-- The text of a file. -/
def decode (bytes : ByteArray) : Except FileError String :=
  match String.fromUTF8? bytes with
  | some text => .ok text
  | none => .error .notText

/-- The source that the options ask for; code comes before a file. -/
def ofOptions (code : Option String) (file : Option (String × Except FileError String))
    (input : String) : Source :=
  match code, file with
  | some code, _ => .inline code
  | none, some (path, content) => .file path content
  | none, none => .lines input

end Source

/-- What a script led to: the text that it wrote, and its value or what stopped it. -/
structure Report where
  output : String := ""
  value : Option String := none
  error : Option String := none
deriving Repr, DecidableEq, Inhabited

/-- All that the program writes, and whether it succeeds. -/
structure Transcript where
  output : String := ""
  errors : String := ""
  success : Bool := true
deriving Repr, DecidableEq, Inhabited

namespace Token

/-- The line of a token in a listing. -/
def listing (t : Token) : String :=
  t.location.text ++ "\t" ++ t.kind.text ++ "\t" ++ Quoted.encode t.text ++ "\n"

end Token

namespace Session

/-- The tokens of a script, up to the first error. -/
def reportTokens (source : String) : Report :=
  let lexed := Lexed.ofString source
  { output := String.join (lexed.tokens.map Token.listing)
    error := lexed.error.map LexError.message }

/-- The tree of a script. -/
def reportTree (source : String) : Report :=
  match Program.parse source with
  | .ok p => { output := p.outline.text ++ "\n" }
  | .error e => { error := some e.report }

/-- The text of the value of a script, or of what it throws. -/
def evaluation (p : Program) : Eval (Except String (Option String)) := do
  match ← Eval.attempt (Engine.full.runScript p) with
  | .ok v => return .ok (← v.mapM Engine.full.format)
  | .error v => return .error ("Uncaught " ++ (← Engine.full.format v))

/-- Runs a script. -/
def reportProgram (p : Program) (s : State) : Report × State :=
  match evaluation p { s with output := "" } with
  | .ok (.ok value) s => ({ output := s.output, value }, s)
  | .ok (.error message) s => ({ output := s.output, error := some message }, s)
  | .error _ s => ({ output := s.output }, s)

/-- What a script leads to. -/
def execute (mode : Mode) (source : String) (s : State) : Report × State :=
  match mode with
  | .tokens => (reportTokens source, s)
  | .tree => (reportTree source, s)
  | .evaluate =>
    match Program.parse source with
    | .ok p => reportProgram p s
    | .error e => ({ error := some e.report }, s)

/-- A text as a line of its own; no text is no line. -/
def line : Option String → String
  | some text => text ++ "\n"
  | none => ""

/-! ### Lines that are typed in -/

/-- The text before the first line. -/
def greeting : String :=
  "jscore v0.1.0\nType JavaScript statements. Press Ctrl-D to exit.\n"

/-- The text before each line. -/
def prompt : String :=
  "> "

/-- What a line leads to. Blanks at both ends do not count, and an empty line has no effect. -/
def feed (mode : Mode) (input : String) (s : State) : Report × State :=
  let source := String.ofList (trimBoth isSpace input.toList)
  if source.isEmpty then ({}, s) else execute mode source s

/-- The lines of a text; a line break ends a line. -/
def inputLines (input : List Char) : List (List Char) :=
  input.foldr (fun c lines =>
    if c = '\n' then [] :: lines
    else match lines with
      | [] => [[c]]
      | first :: rest => (c :: first) :: rest) []

/-- What lines lead to, one after another. -/
def converse (mode : Mode) (t : Transcript) (s : State) : List (List Char) → Transcript
  | [] => t
  | input :: rest =>
    let (r, s) := feed mode (String.ofList input) s
    converse mode
      { t with
        output := t.output ++ r.output ++ line r.value ++ prompt
        errors := t.errors ++ line r.error } s rest

/-! ### The whole program -/

/-- What one script leads to; its value is not written. -/
def single (mode : Mode) (code : String) : Transcript :=
  let (r, _) := execute mode code State.initial
  { output := r.output, errors := line r.error, success := r.error.isNone }

/-- All that the program writes. -/
def transcript (mode : Mode) : Source → Transcript
  | .inline code => single mode code
  | .file _ (.ok code) => single mode code
  | .file path (.error e) =>
    { errors := "Error reading " ++ path ++ ": " ++ e.message ++ "\n", success := false }
  | .lines input =>
    let t := converse mode { output := greeting ++ prompt } State.initial (inputLines input.toList)
    { t with output := t.output ++ "\n" }

end Session

end Ecma
