import ExprLang.Text.Similarity

/-!
# Command line arguments

The program takes flags and the name of at most one file, in any order.  After the argument `--`
nothing is a flag any more.  Arguments are read from the left, and the first one that is wrong, or
that asks for help or for the version, decides.

## Main definitions

* `Flag` — the flags.
* `Options`, `Request` — what the arguments ask for.
* `UsageError` — what is wrong with them.
* `readArguments` — the request that a list of arguments makes.
-/

namespace ExprLang.CommandLine

/-! ### Flags -/

/-- A flag of the program. -/
inductive Flag where
  /-- Show the tokens. -/
  | tokens
  /-- Show the structure of the tree. -/
  | debug
  /-- Show how the program is used. -/
  | help
  /-- Show the version of the program. -/
  | version
  deriving DecidableEq, Repr, Inhabited

namespace Flag

/-- Every flag. -/
def all : List Flag := [tokens, debug, help, version]

/-- The name of a flag, without the dashes. -/
def name : Flag → String
  | tokens => "tokens"
  | debug => "debug"
  | help => "help"
  | version => "version"

/-- The letter of a flag, if it has one. -/
def letter? : Flag → Option Char
  | help => some 'h'
  | version => some 'V'
  | _ => none

/-- A flag as it is written in full. -/
def written (f : Flag) : String := "--" ++ f.name

/-- Whether a flag says what to show of a source text. -/
def isOption : Flag → Bool
  | tokens | debug => true
  | help | version => false

/-- The flag with a given name. -/
def ofName? (s : String) : Option Flag := all.find? (·.name == s)

/-- The flag with a given letter. -/
def ofLetter? (c : Char) : Option Flag := all.find? (·.letter? == some c)

end Flag

/-! ### Requests -/

/-- What to read, and what to show of it. -/
structure Options where
  /-- The file to read, or nothing for the standard input. -/
  file : Option String
  /-- Whether to show the tokens. -/
  tokens : Bool
  /-- Whether to show the structure of the tree. -/
  debug : Bool
  deriving DecidableEq, Repr, Inhabited

/-- What the arguments ask for. -/
inductive Request where
  /-- To read a source text. -/
  | run (options : Options)
  /-- To show how the program is used. -/
  | help
  /-- To show the version of the program. -/
  | version
  deriving DecidableEq, Repr, Inhabited

/-- What has been given so far, for the line that shows the usage. -/
structure Given where
  /-- The flags, in the order in which they were given. -/
  flags : List Flag
  /-- The file. -/
  file : Option String
  deriving DecidableEq, Repr, Inhabited

namespace Given

/-- Nothing. -/
def nothing : Given := ⟨[], none⟩

/-- Whether anything has been given. -/
def isNothing (g : Given) : Bool := g.flags.isEmpty && g.file.isNone

/-- The same, with a flag that may have been given before. -/
def add (g : Given) (f : Flag) : Given :=
  if g.flags.contains f then g else { g with flags := g.flags ++ [f] }

end Given

/-- What is wrong with some arguments. -/
inductive UsageError where
  /-- An argument that is neither a flag nor the name of the file.  It may be a misspelled flag,
  or be meant as a name. -/
  | unexpected (argument : String) (similar : Option Flag) (asName : Bool) (given : Given)
  /-- A flag that is given twice. -/
  | repeated (flag : Flag)
  /-- A flag with a value, after what has been given before it. -/
  | needlessValue (flag : Flag) (value : String) (given : Given)
  /-- An empty name for the file. -/
  | emptyName
  deriving DecidableEq, Repr, Inhabited

/-! ### Reading the arguments -/

/-- How far the reading has come. -/
structure Progress where
  /-- What has been given and found right. -/
  given : Given
  /-- The name of the file, while it has not been looked at yet. -/
  pending : Option String
  deriving DecidableEq, Repr, Inhabited

namespace Progress

/-- Nothing has been read. -/
def start : Progress := ⟨.nothing, none⟩

/-- Look at the name of the file. -/
def settle (p : Progress) : Except UsageError Progress :=
  match p.pending with
  | none => .ok p
  | some "" => .error .emptyName
  | some name => .ok ⟨{ p.given with file := some name }, none⟩

/-- What has been given, with the name of the file even if it is wrong. -/
def givenSoFar (p : Progress) : Given :=
  match p.pending with
  | none => p.given
  | some name => { p.given with file := some name }

/-- Whether the file has been named. -/
def hasName (p : Progress) : Bool := p.pending.isSome || p.given.file.isSome

/-- What a flag leads to: the end of the reading, or further progress. -/
def give (p : Progress) (f : Flag) : Except UsageError (Request ⊕ Progress) := do
  let q ← p.settle
  match f with
  | .help => pure (.inl .help)
  | .version => pure (.inl .version)
  | f => if q.given.flags.contains f then throw (.repeated f) else pure (.inr ⟨q.given.add f, none⟩)

/-- What several letters after a dash lead to. -/
def giveLetters (p : Progress) : List Char → Except UsageError (Request ⊕ Progress)
  | [] => pure (.inr p)
  | c :: cs => do
    match Flag.ofLetter? c with
    | none => throw (.unexpected (String.ofList ['-', c]) none true .nothing)
    | some f =>
      match ← p.give f with
      | .inl r => pure (.inl r)
      | .inr q => giveLetters q cs

/-- What an argument after two dashes leads to.  What follows an equals sign in it is a value. -/
def giveWord (p : Progress) (word : List Char) : Except UsageError (Request ⊕ Progress) :=
  let name := String.ofList (word.takeWhile (· != '='))
  let value := word.dropWhile (· != '=')
  match Flag.ofName? name, value with
  | some f, [] => p.give f
  | some f, _ :: value =>
    throw (.needlessValue f (String.ofList value) p.given)
  | none, _ =>
    let similar := (Text.mostSimilar? name (Flag.all.map Flag.name)).bind Flag.ofName?
    let given := match similar with
      | some f => p.givenSoFar.add f
      | none => p.givenSoFar
    throw (.unexpected ("--" ++ name) similar similar.isNone given)

/-- What the name of a file leads to. -/
def giveName (p : Progress) (name : String) : Except UsageError Progress :=
  if p.hasName then throw (.unexpected name none false .nothing)
  else pure { p with pending := some name }

/-- The request that has been made when all arguments have been read. -/
def finish (p : Progress) : Except UsageError Request := do
  let q ← p.settle
  pure (.run ⟨q.given.file, q.given.flags.contains .tokens, q.given.flags.contains .debug⟩)

end Progress

/-- Read names only, after the argument `--`. -/
def readNames (p : Progress) : List String → Except UsageError Request
  | [] => p.finish
  | name :: names => do readNames (← p.giveName name) names

/-- Read the arguments after those that have led to `p`. -/
def readFrom (p : Progress) : List String → Except UsageError Request
  | [] => p.finish
  | argument :: arguments => do
    match argument.toList with
    -- from here on there are no flags
    | ['-', '-'] => readNames p arguments
    | '-' :: '-' :: word =>
      match ← p.giveWord word with
      | .inl r => pure r
      | .inr q => readFrom q arguments
    | '-' :: c :: letters =>
      match ← p.giveLetters (c :: letters) with
      | .inl r => pure r
      | .inr q => readFrom q arguments
    -- a single dash is a name
    | _ => readFrom (← p.giveName argument) arguments

/-- The request that a list of arguments makes. -/
def readArguments (arguments : List String) : Except UsageError Request :=
  readFrom .start arguments

end ExprLang.CommandLine
