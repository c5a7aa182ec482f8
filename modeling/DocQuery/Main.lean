import DocQuery.CommandLine

/-!
# The program

Arguments and environment are read, the input is taken from where they say, and
the outcome is written.
-/

open DocQuery.CommandLine

/-- The number of a failure of the system, which may come negated. -/
def failureNumber (code : UInt32) : UInt32 :=
  min code (0 - code)

/-- The cause behind a failure of the system. -/
def readFailureOf : IO.Error → ReadFailure
  | .noFileOrDirectory .. => .noSuchFile
  | .permissionDenied .. => .permissionDenied
  | .inappropriateType _ code details =>
      if failureNumber code = 21 then .isDirectory
      else if failureNumber code = 20 then .notADirectory
      else .other details
  | .invalidArgument _ code details =>
      if failureNumber code = 36 then .nameTooLong else .other details
  | problem => .other (toString problem)

/-- The content of a file. -/
def contentOfFile (path : String) : IO (Except ReadFailure String) := do
  try
    return decode (← IO.FS.readBinFile path)
  catch problem =>
    return .error (readFailureOf problem)

/-- All bytes of a stream. -/
partial def allBytes (stream : IO.FS.Stream) (bytes : ByteArray) : IO ByteArray := do
  let more ← stream.read 65536
  if more.isEmpty then return bytes else allBytes stream (bytes ++ more)

/-- What the input of an invocation holds. -/
def contentOf : Input → IO (Except ReadFailure String)
  | .text query => return .ok query
  | .file path => contentOfFile path
  | .standard => do return decode (← allBytes (← IO.getStdin) .empty)

/-- The values of the variables that the command line knows. -/
def environment : IO (List (String × String)) := do
  let names := ["RQL_MAX_DEPTH", "RQL_MAX_CONNECTIVES", "RQL_QUERY_TYPE"]
  names.filterMapM fun name => do return (← IO.getEnv name).map (name, ·)

/-- The outcome of the arguments. -/
def outcomeOf (arguments : List String) : IO Outcome := do
  let known ← environment
  match Invocation.ofArguments (fun name => known.lookup name) arguments with
  | .error stop => return stop.outcome
  | .ok invocation => return invocation.run (← contentOf invocation.input)

def main (arguments : List String) : IO UInt32 := do
  let outcome ← outcomeOf arguments
  (← IO.getStdout).putStr outcome.out
  (← IO.getStderr).putStr outcome.err
  return outcome.status.toUInt32
