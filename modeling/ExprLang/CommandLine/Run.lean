import ExprLang.CommandLine.Usage
import ExprLang.Diagnostic.Report
import ExprLang.Parser.Basic
import ExprLang.Tree.Outline
import ExprLang.Tree.Render

/-!
# Running the program

What the program answers is a function of its arguments and of the input that these name.  The input
may turn out not to be readable, or not to be text.

## Main definitions

* `Answer` — the exit code, and what is written to the two outputs.
* `Input`, `ReadError` — the bytes of the input, or why there are none.
* `present` — the answer for a source text.
* `answer` — the answer for arguments and the input that they name.
-/

namespace ExprLang.CommandLine

/-- What the program answers. -/
structure Answer where
  /-- The exit code. -/
  code : UInt8
  /-- What is written to the standard output. -/
  output : String
  /-- What is written to the standard error. -/
  errors : String
  deriving DecidableEq, Repr, Inhabited

/-- Why an input cannot be read. -/
inductive ReadError where
  /-- There is no such file. -/
  | notFound
  /-- The bytes are not those of a text in UTF-8. -/
  | notText
  /-- The system has another reason, with a number. -/
  | system (reason : String) (number : UInt32)
  deriving DecidableEq, Repr, Inhabited

/-- The message for an input that cannot be read. -/
def ReadError.message : ReadError → String
  | notFound => "No such file or directory (os error 2)"
  | notText => "stream did not contain valid UTF-8"
  | system reason number => reason ++ " (os error " ++ toString number ++ ")"

/-- The bytes of an input, or why they cannot be read. -/
abbrev Input := Except ReadError ByteArray

/-! ### The name of an input -/

/-- The parts of a path between its slashes. -/
def pathParts (path : String) : List String :=
  (path.splitOn "/").filter fun part => part != "" && part != "."

/-- The name under which a file is reported: the last part of its path, if that is a name. -/
def fileName (path : String) : String :=
  match (pathParts path).getLast? with
  | some part => if part = ".." then path else part
  | none => path

/-- The name under which an input is reported. -/
def inputName (file : Option String) : String := (file.map fileName).getD "stdin"

/-- The name by which a failure to read an input calls it. -/
def inputPath (file : Option String) : String := file.getD "stdin"

/-! ### Answers -/

/-- The answer for an input that cannot be read. -/
def failed (path : String) (e : ReadError) : Answer :=
  ⟨1, "", "Error: failed to read " ++ path ++ "\n\nCaused by:\n    " ++ e.message ++ "\n"⟩

/-- The tokens of a source text, one a line. -/
def listTokens (source name : String) : String :=
  String.join ((tokenize source name).map fun t => t.listing ++ "\n")

/-- The answer for a source text. -/
def present (o : Options) (source name : String) : Answer :=
  if o.tokens then ⟨0, listTokens source name, ""⟩
  else
    let parsed := parseText source name
    if !parsed.isClean then
      ⟨1, "", String.join (parsed.diagnostics.map (·.report source name))⟩
    else if o.debug then ⟨0, parsed.program.outline.layout true ++ "\n", ""⟩
    else ⟨0, parsed.program.render ++ "\n", ""⟩

/-- The answer for an input. -/
def presentInput (o : Options) (input : Input) : Answer :=
  match input with
  | .error e => failed (inputPath o.file) e
  | .ok bytes =>
    match String.fromUTF8? bytes with
    | none => failed (inputPath o.file) .notText
    | some source => present o source (inputName o.file)

/-- The answer for some arguments.  The function `read` gives the input that they name: a file, or
the standard input. -/
def answer {m : Type → Type} [Monad m] (read : Option String → m Input) (arguments : List String) :
    m Answer :=
  match readArguments arguments with
  | .error e => pure ⟨2, "", e.report⟩
  | .ok .help => pure ⟨0, helpText, ""⟩
  | .ok .version => pure ⟨0, versionText, ""⟩
  | .ok (.run o) => do
    let input ← read o.file
    pure (presentInput o input)

end ExprLang.CommandLine
