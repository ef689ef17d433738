import ExprLang.CommandLine.Arguments
import ExprLang.Text.Plain

/-!
# Usage texts

The texts that show how the program is used, and those for arguments that are wrong.

## Main definitions

* `helpText`, `versionText` — what is shown on request.
* `usageLine`, `choiceLine` — the usage in one line, for what has been given.
* `UsageError.report` — what is shown for arguments that are wrong.
-/

namespace ExprLang.CommandLine

/-- The name of the program. -/
def programName : String := "frontend"

/-- The text for the version. -/
def versionText : String := programName ++ " 0.1.0\n"

/-- The usage in one line.  Once something has been given, the line shows that, instead of that
there are options. -/
def usageLine (g : Given) : String :=
  "Usage: " ++ programName ++
    (if g.isNothing then " [OPTIONS]" else String.join (g.flags.map fun f => " " ++ f.written)) ++
    (if g.file.isSome then " <FILE>" else " [FILE]")

/-- The usage in one line, for a flag that has been given a value.  Once something else has been
given before it, the line shows all that can be given together, instead of what has been. -/
def choiceLine (flag : Flag) (before : Given) : String :=
  let options := (Flag.all.filter Flag.isOption).map Flag.written
  if before.isNothing then usageLine (before.add flag)
  else
    "Usage: " ++ programName ++ (if flag.isOption then "" else " " ++ flag.written) ++
      " <" ++ "|".intercalate ("FILE" :: options) ++ ">"

/-- The text that shows how the program is used. -/
def helpText : String :=
  "Parses a source file and prints its canonical form\n\n" ++
    usageLine .nothing ++ "\n\n" ++
    "Arguments:\n" ++
    "  [FILE]  File to parse, stdin when omitted\n\n" ++
    "Options:\n" ++
    "      --tokens   Print the token stream instead of parsing\n" ++
    "      --debug    Print the tree's debug form instead of its canonical rendering\n" ++
    "  -h, --help     Print help\n" ++
    "  -V, --version  Print version\n"

namespace UsageError

/-- What is wrong, in one line.  What has been given is shown as plain text. -/
def message : UsageError → String
  | unexpected argument .. => "unexpected argument '" ++ Text.plain argument ++ "' found"
  | repeated flag => "the argument '" ++ flag.written ++ "' cannot be used multiple times"
  | needlessValue flag value _ =>
    "unexpected value '" ++ Text.plain value ++ "' for '" ++ flag.written ++
      "' found; no more were expected"
  | emptyName => "a value is required for '[FILE]' but none was supplied"

/-- A tip on what may have been meant. -/
def tip? : UsageError → Option String
  | unexpected _ (some flag) _ _ => some ("a similar argument exists: '" ++ flag.written ++ "'")
  | unexpected argument none true _ =>
    let shown := Text.plain argument
    some ("to pass '" ++ shown ++ "' as a value, use '-- " ++ shown ++ "'")
  | _ => none

/-- The usage line to show, if there is one. -/
def usage? : UsageError → Option String
  | unexpected _ _ _ given => some (usageLine given)
  | repeated _ => some (usageLine .nothing)
  | needlessValue flag _ given => some (choiceLine flag given)
  | emptyName => none

/-- What is shown for arguments that are wrong. -/
def report (e : UsageError) : String :=
  "error: " ++ e.message ++ "\n" ++
    (e.tip?.map fun tip => "\n  tip: " ++ tip ++ "\n").getD "" ++
    (e.usage?.map fun usage => "\n" ++ usage ++ "\n").getD "" ++
    "\nFor more information, try '--help'.\n"

end UsageError

end ExprLang.CommandLine
