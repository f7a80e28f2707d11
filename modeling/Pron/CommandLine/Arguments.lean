/-!
# Arguments of the command line

The arguments name a command and its file, and hold options. The options `--log`, `--log-file` and `--class-path` may
stand before the command and behind it; what is said behind it counts. No option may be given twice in one of the two
places. Behind `--` every argument is a file.
-/

namespace Pron.CommandLine

/-- What to do. -/
inductive Command
  | run (file : String)
  | tokenize (file : String)
  | parse (file : String) (json : Bool)
  | repl
  deriving DecidableEq, Repr

/-- A command with its options. -/
structure Invocation where
  command : Command
  log : Bool
  logFile : String
  classPath : String
  deriving DecidableEq, Repr

/-- What the arguments ask for. -/
inductive Request
  | invoke (i : Invocation)
  | version
  | help
  deriving DecidableEq, Repr

namespace Arguments

/-- The names of the commands. -/
inductive Name
  | run | tokenize | parse | repl
  deriving DecidableEq, Repr

/-- The options given before or behind the command. -/
structure Options where
  log : Bool
  logFile : Option String
  classPath : Option String

/-- No option is given. -/
def noOptions : Options := ⟨false, none, none⟩

/-- What the arguments so far have said. -/
structure State where
  name : Option Name
  before : Options
  behind : Options
  file : Option String
  json : Bool
  onlyFiles : Bool

/-- Nothing is read yet. -/
def initial : State := ⟨none, noOptions, noOptions, none, false, false⟩

/-- An argument that is an option by its look. A hyphen alone is not. -/
def looksLikeOption (argument : String) : Bool := argument.toList.head? == some '-' && argument ≠ "-"

/-- The options of the place that has been reached. -/
def State.options (st : State) : Options := if st.name.isNone then st.before else st.behind

/-- The same state with other options in the place that has been reached. -/
def State.setOptions (st : State) (options : Options) : State :=
  if st.name.isNone then { st with before := options } else { st with behind := options }

/-- Takes `--log`. -/
def setLog (st : State) : Option State :=
  if st.options.log then none else some (st.setOptions { st.options with log := true })

/-- Takes a value for `--log-file`. -/
def setLogFile (st : State) (value : String) : Option State :=
  if st.options.logFile.isSome ∨ value = "" then none
  else some (st.setOptions { st.options with logFile := some value })

/-- Takes a value for `--class-path`. -/
def setClassPath (st : State) (value : String) : Option State :=
  if st.options.classPath.isSome ∨ value = "" then none
  else some (st.setOptions { st.options with classPath := some value })

/-- Takes `--json`, which only `parse` has. -/
def setJson (st : State) : Option State :=
  if st.name = some .parse ∧ !st.json then some { st with json := true } else none

/-- A command, or the file of a command. -/
def takeWord (st : State) (word : String) : Option State :=
  match st.name with
  | none =>
    if st.onlyFiles then none
    else
      match word with
      | "run" => some { st with name := some .run }
      | "tokenize" => some { st with name := some .tokenize }
      | "parse" => some { st with name := some .parse }
      | "repl" => some { st with name := some .repl }
      | _ => none
  | some .repl => none
  | some _ => if st.file.isSome ∨ word = "" then none else some { st with file := some word }

/-- The value that stands in an option behind its name and an equals sign. -/
def attached? (option argument : String) : Option String :=
  let start := option.toList ++ ['=']
  if start.isPrefixOf argument.toList then some (String.ofList (argument.toList.drop start.length)) else none

/-- An option that is complete in one argument. -/
def takeOption (st : State) (argument : String) : Option State :=
  if argument = "--log" then setLog st
  else if argument = "--json" then setJson st
  else
    match attached? "--log-file" argument, attached? "--class-path" argument with
    | some value, _ => setLogFile st value
    | none, some value => setClassPath st value
    | none, none => none

/-- The command that was asked for, when nothing is missing. -/
def finish (st : State) : Option Request := do
  let command ←
    match st.name, st.file with
    | none, _ | some .repl, _ => some .repl
    | some .run, some file => some (.run file)
    | some .tokenize, some file => some (.tokenize file)
    | some .parse, some file => some (.parse file st.json)
    | some _, none => none
  return .invoke
    { command
      log := st.before.log || st.behind.log
      logFile := (st.behind.logFile <|> st.before.logFile).getD "app.log"
      classPath := (st.behind.classPath <|> st.before.classPath).getD "." }

/-- Whether an argument asks for the version; only one before the command does. -/
def asksVersion (st : State) (argument : String) : Bool :=
  st.name.isNone && (argument = "--version" || ['-', 'V'].isPrefixOf argument.toList)

/-- Whether an argument is an option that asks for help. -/
def asksHelp (argument : String) : Bool := argument = "--help" || ['-', 'h'].isPrefixOf argument.toList

/-- What may stand behind the command `help`. -/
def helpTopics : List String := ["run", "tokenize", "parse", "repl", "help"]

/-- The command `help` is about a command or about all. -/
def readHelp : List String → Option Request
  | [] => some .help
  | [topic] => if topic ∈ helpTopics then some .help else none
  | _ => none

/-- Reads the arguments from left to right. -/
def read (st : State) : List String → Option Request
  | [] => finish st
  | argument :: rest =>
    if st.onlyFiles then (takeWord st argument).bind fun st => read st rest
    else if argument = "--" then read { st with onlyFiles := true } rest
    else if asksVersion st argument then some .version
    else if asksHelp argument then some .help
    else if st.name.isNone ∧ argument = "help" then readHelp rest
    else if argument = "--log-file" ∨ argument = "--class-path" then
      match rest with
      | [] => none
      | value :: rest =>
        if looksLikeOption value then none
        else
          (if argument = "--log-file" then setLogFile st value else setClassPath st value).bind fun st => read st rest
    else if looksLikeOption argument then (takeOption st argument).bind fun st => read st rest
    else (takeWord st argument).bind fun st => read st rest

end Arguments

/-- What the arguments ask for, unless they make no sense. -/
def readArguments (arguments : List String) : Option Request := Arguments.read Arguments.initial arguments

end Pron.CommandLine
