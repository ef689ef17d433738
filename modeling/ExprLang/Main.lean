import ExprLang.CommandLine.Run

/-!
# The program

The program reads its input, from a file or from the standard input, and writes its answer.  All
that it decides is decided in `ExprLang.CommandLine.Run`.
-/

namespace ExprLang.CommandLine

/-- Why the system could not read an input. -/
def ReadError.ofSystem : IO.Error → ReadError
  | .noFileOrDirectory .. => .notFound
  | .permissionDenied _ number _ => .system "Permission denied" number
  | .inappropriateType _ number _ => .system "Is a directory" number
  | e => .system (toString e) 0

/-- All the bytes of a stream. -/
partial def readAll (stream : IO.FS.Stream) (bytes : ByteArray) : IO ByteArray := do
  let more ← stream.read 65536
  if more.isEmpty then pure bytes else readAll stream (bytes ++ more)

/-- The bytes of an input: a file, or the standard input. -/
def readInput (file : Option String) : IO Input := do
  try
    match file with
    | some path => pure (.ok (← IO.FS.readBinFile path))
    | none => pure (.ok (← readAll (← IO.getStdin) ByteArray.empty))
  catch e => pure (.error (.ofSystem e))

end ExprLang.CommandLine

/-- Answer the arguments. -/
def main (arguments : List String) : IO UInt32 := do
  let a ← ExprLang.CommandLine.answer ExprLang.CommandLine.readInput arguments
  (← IO.getStdout).putStr a.output
  (← IO.getStderr).putStr a.errors
  pure a.code.toUInt32
