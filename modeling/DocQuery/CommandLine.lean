import DocQuery.Json.Encode
import DocQuery.Outline
import DocQuery.Session

/-!
# The command line

A command parses, checks or formats one query, which is an argument, the content
of a file or the standard input.  Options in front of the command set the limits
and the kind of query; where one is not given, a variable of the environment may
set it.  Arguments that can not be understood end with status 2, a query that is
not accepted or can not be read with status 1.
-/

namespace DocQuery.CommandLine

/-! ## What can be asked for -/

/-- How a parsed query is printed. -/
inductive Format where
  | json | debug
  deriving DecidableEq, Repr

/-- What is done with the query. -/
inductive Task where
  | parse (format : Format)
  | check
  | fmt
  deriving DecidableEq, Repr

/-- Where the text of the query comes from. -/
inductive Input where
  | text (query : String)
  | file (path : String)
  | standard
  deriving DecidableEq, Repr

/-- All that the arguments and the environment say. -/
structure Invocation where
  task : Task
  input : Input
  kind : QueryKind
  limits : Grammar.Limits
  deriving DecidableEq, Repr

/-- Why the arguments lead to no task. -/
inductive Stop where
  /-- The arguments can not be understood. -/
  | usage
  /-- The arguments ask how to use the command. -/
  | help
  deriving DecidableEq, Repr

/-! ## Arguments -/

/-- An argument by its first characters. -/
inductive Argument where
  | long (name : String) (value : Option String)
  | short (letters : List Char)
  | plain (text : String)
  /-- The mark that makes all further arguments plain. -/
  | mark
  deriving DecidableEq, Repr

/-- Split at the first equals sign. -/
def splitAtEquals (cs : List Char) : String × Option String :=
  let name := cs.takeWhile (· != '=')
  match cs.drop name.length with
  | [] => (String.ofList name, none)
  | _ :: value => (String.ofList name, some (String.ofList value))

/-- What an argument looks like. -/
def classify (argument : String) : Argument :=
  match argument.toList with
  | ['-', '-'] => .mark
  | '-' :: '-' :: cs => .long (splitAtEquals cs).1 (splitAtEquals cs).2
  | '-' :: c :: cs => .short (c :: cs)
  | _ => .plain argument

/-- The number of 64 bits that a text of digits writes. -/
def number? (text : String) : Option Nat :=
  let digits := match text.toList with
    | '+' :: cs => cs
    | cs => cs
  if digits.isEmpty || !digits.all Char.isDigit then none
  else
    let n := digits.foldl (fun n c => 10 * n + (c.toNat - '0'.toNat)) 0
    if n < UInt64.size then some n else none

/--
The value of an option: the one attached to it, or the next argument if that
does not look like an option.  Also tells whether the next argument is used up.
-/
def optionValue (attached next : Option String) : Except Stop (String × Bool) :=
  match attached with
  | some value => .ok (value, false)
  | none =>
    match next.map classify with
    | some (.plain value) => .ok (value, true)
    | _ => .error .usage

/-- The value of an option with one letter, from the letters behind it. -/
def attachedValue : List Char → Option String
  | [] => none
  | '=' :: cs => some (String.ofList cs)
  | cs => some (String.ofList cs)

/-- Set what is not set yet. -/
def setOnce {α : Type} (old : Option α) (new : Option α) : Except Stop (Option α) :=
  match old, new with
  | none, some a => .ok (some a)
  | _, _ => .error .usage

/-- What a flag that asks for help leads to; it takes no value. -/
def helpFlag (attached : Option String) : Stop :=
  if attached.isSome then .usage else .help

/-- The options in front of the command. -/
structure Options where
  maxDepth : Option Nat := none
  maxConnectives : Option Nat := none
  kind : Option QueryKind := none
  verbose : Option Unit := none

/-- An option in front of the command, by its long name. -/
def Options.set (options : Options) (name : String) (attached next : Option String) :
    Except Stop (Options × Bool) := do
  match name with
  | "max-depth" =>
      let (value, used) ← optionValue attached next
      return ({ options with maxDepth := ← setOnce options.maxDepth (number? value) }, used)
  | "max-connectives" =>
      let (value, used) ← optionValue attached next
      let limit ← setOnce options.maxConnectives (number? value)
      return ({ options with maxConnectives := limit }, used)
  | "query-type" =>
      let (value, used) ← optionValue attached next
      return ({ options with kind := ← setOnce options.kind (QueryKind.ofName? value) }, used)
  | "verbose" =>
      if attached.isSome then .error .usage
      else return ({ options with verbose := ← setOnce options.verbose (some ()) }, false)
  | "help" => .error (helpFlag attached)
  | "version" => .error (helpFlag attached)
  | _ => .error .usage

/-- Options in front of the command, by their letters in one argument. -/
def Options.setShort (next : Option String) :
    List Char → Options → Except Stop (Options × Bool)
  | [], options => .ok (options, false)
  | 't' :: letters, options => options.set "query-type" (attachedValue letters) next
  | 'v' :: letters, options => do
      let (options, _) ← options.set "verbose" none none
      setShort next letters options
  | 'h' :: _, _ => .error .help
  | 'V' :: _, _ => .error .help
  | _ :: _, _ => .error .usage

/-- The options, the name of the command and the arguments behind it. -/
def splitCommand : List String → Options → Except Stop (Options × String × List String)
  | [], _ => .error .usage
  | argument :: rest, options => do
      match classify argument with
      | .mark => .error .usage
      | .plain name => return (options, name, rest)
      | .long name attached =>
          let (options, used) ← options.set name attached rest.head?
          match used, rest with
          | true, _ :: rest => splitCommand rest options
          | _, rest => splitCommand rest options
      | .short letters =>
          let (options, used) ← Options.setShort rest.head? letters options
          match used, rest with
          | true, _ :: rest => splitCommand rest options
          | _, rest => splitCommand rest options

/-- The arguments behind the command. -/
structure Parts where
  query : Option String := none
  file : Option String := none
  format : Option Format := none

/-- The path of a file, which is not empty. -/
def path? (text : String) : Option String :=
  if text.isEmpty then none else some text

/-- The format of a name. -/
def format? (name : String) : Option Format :=
  match name with
  | "json" => some .json
  | "debug" => some .debug
  | _ => none

/-- An option behind the command, by its long name. -/
def Parts.set (parts : Parts) (hasFormat : Bool) (name : String)
    (attached next : Option String) : Except Stop (Parts × Bool) := do
  match name with
  | "file" =>
      let (value, used) ← optionValue attached next
      return ({ parts with file := ← setOnce parts.file (path? value) }, used)
  | "format" =>
      if hasFormat then
        let (value, used) ← optionValue attached next
        return ({ parts with format := ← setOnce parts.format (format? value) }, used)
      else .error .usage
  | "help" => .error (helpFlag attached)
  | _ => .error .usage

/-- Options behind the command, by their letters in one argument. -/
def Parts.setShort (parts : Parts) (next : Option String) :
    List Char → Except Stop (Parts × Bool)
  | 'f' :: letters => parts.set false "file" (attachedValue letters) next
  | 'h' :: _ => .error .help
  | _ => .error .usage

/-- The query among the arguments that are no options. -/
def Parts.addQuery (parts : Parts) (query : String) : Except Stop Parts := do
  return { parts with query := ← setOnce parts.query (some query) }

/-- The arguments behind the command, from left to right. -/
def readParts (hasFormat : Bool) : List String → Parts → Except Stop Parts
  | [], parts => .ok parts
  | argument :: rest, parts => do
      match classify argument with
      | .mark => rest.foldlM Parts.addQuery parts
      | .plain query => readParts hasFormat rest (← parts.addQuery query)
      | .long name attached =>
          let (parts, used) ← parts.set hasFormat name attached rest.head?
          match used, rest with
          | true, _ :: rest => readParts hasFormat rest parts
          | _, rest => readParts hasFormat rest parts
      | .short letters =>
          let (parts, used) ← parts.setShort rest.head? letters
          match used, rest with
          | true, _ :: rest => readParts hasFormat rest parts
          | _, rest => readParts hasFormat rest parts

/-- Where the arguments say that the query is; it can not be in two places. -/
def Parts.input (parts : Parts) : Except Stop Input :=
  match parts.query, parts.file with
  | some _, some _ => .error .usage
  | some query, none => .ok (.text query)
  | none, some path => .ok (.file path)
  | none, none => .ok .standard

/-- The setting of an option, else of a variable, else the default. -/
def setting {α : Type} (given : Option α) (read : String → Option α)
    (fromEnvironment : Option String) (default : α) : Except Stop α :=
  match given, fromEnvironment with
  | some a, _ => .ok a
  | none, none => .ok default
  | none, some text =>
    match read text with
    | some a => .ok a
    | none => .error .usage

/-- What the command `help` leads to; it takes the name of one command at most. -/
def helpCommand : List String → Stop
  | [] => .help
  | [name] => if ["parse", "check", "fmt", "help"].contains name then .help else .usage
  | _ => .usage

/-- All that the arguments and the variables of the environment say. -/
def Invocation.ofArguments (environment : String → Option String) (arguments : List String) :
    Except Stop Invocation := do
  let (options, command, rest) ← splitCommand arguments {}
  let hasFormat := command == "parse"
  if command = "help" then .error (helpCommand rest)
  else if ["parse", "check", "fmt"].contains command then
    let parts ← readParts hasFormat rest {}
    let maxDepth ← setting options.maxDepth number? (environment "RQL_MAX_DEPTH") 128
    let maxConnectives ←
      setting options.maxConnectives number? (environment "RQL_MAX_CONNECTIVES") 1024
    let kind ← setting options.kind QueryKind.ofName? (environment "RQL_QUERY_TYPE") .select
    let task := match command with
      | "parse" => Task.parse (parts.format.getD .json)
      | "check" => Task.check
      | _ => Task.fmt
    return ⟨task, ← parts.input, kind, ⟨maxDepth, maxConnectives⟩⟩
  else .error .usage

/-! ## Running a task -/

/-- What a run writes and its status. -/
structure Outcome where
  status : Nat
  out : String
  err : String
  deriving DecidableEq, Repr

/-- How to use the command. -/
def usageText : String :=
  "Usage: rql [--max-depth N] [--max-connectives N] [-t|--query-type TYPE] [-v|--verbose]\n" ++
  "           (parse [--format json|debug] | check | fmt) [QUERY | -f|--file PATH]\n"

/-- The outcome of arguments that lead to no task. -/
def Stop.outcome : Stop → Outcome
  | .usage => ⟨2, "", usageText⟩
  | .help => ⟨0, usageText, ""⟩

/-- Why the text of a query can not be had. -/
inductive ReadFailure where
  | noSuchFile
  | isDirectory
  | notADirectory
  | permissionDenied
  | nameTooLong
  | notUnicode
  /-- Another cause in the words of the system. -/
  | other (words : String)
  deriving DecidableEq, Repr

/-- The wording of a cause. -/
def ReadFailure.message : ReadFailure → String
  | noSuchFile => "No such file or directory (os error 2)"
  | isDirectory => "Is a directory (os error 21)"
  | notADirectory => "Not a directory (os error 20)"
  | permissionDenied => "Permission denied (os error 13)"
  | nameTooLong => "File name too long (os error 36)"
  | notUnicode => "stream did not contain valid UTF-8"
  | other words => words

/-- The name of an input in messages. -/
def Input.name : Input → String
  | .text _ => "argument"
  | .file path => path
  | .standard => "stdin"

/-- The text that bytes hold. -/
def decode (bytes : ByteArray) : Except ReadFailure String :=
  match String.fromUTF8? bytes with
  | some text => .ok text
  | none => .error .notUnicode

/-- The wording of a failure. -/
def failureMessage : Failure → String
  | .rejected error => error.message
  | .fault _ => "the query can not be read"
  | .outOfFuel => "the query is too long"

/-- The text of a query in a format. -/
def Format.print (query : Query) : Format → String
  | .json => query.toJson.pretty 0
  | .debug => query.outline.render 0

/-- The outcome of a task on a text. -/
def Invocation.runText (invocation : Invocation) (text : String) : Outcome :=
  match Query.parse invocation.kind invocation.limits text, invocation.task with
  | .ok query, .parse format => ⟨0, format.print query ++ "\n", ""⟩
  | .ok query, .fmt => ⟨0, query.render ++ "\n", ""⟩
  | .ok _, .check => ⟨0, "ok\n", ""⟩
  | .error failure, .check => ⟨1, "", failureMessage failure ++ "\n"⟩
  | .error failure, _ => ⟨1, "", "Error: " ++ failureMessage failure ++ "\n"⟩

/-- The outcome of a task on what came from its input. -/
def Invocation.run (invocation : Invocation) (content : Except ReadFailure String) : Outcome :=
  match content with
  | .ok text => invocation.runText text
  | .error failure =>
      ⟨1, "", "Error: failed to read " ++ invocation.input.name ++ "\n\nCaused by:\n    " ++
        failure.message ++ "\n"⟩

end DocQuery.CommandLine
