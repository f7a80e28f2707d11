import Pron.CommandLine.Arguments
import Pron.FileTree
import Pron.Session.Prompt
import Pron.Syntax.Json
import Pron.Text.Quoted

/-!
# The command line

A command reads a source file, or lines from standard input, and ends with a report: an exit status and what appears on
standard output and standard error. The status is 65 for a source that cannot be accepted, 70 for a program that ends
with a runtime error, 1 when a file or the input cannot be read, and 2 when the arguments make no sense.
-/

namespace Pron.CommandLine

open Prompt (listErrors errorLine valueLine)

/-- How a command ends. The units that were looked for while it ran are listed as well. -/
structure Report where
  status : Nat
  out : String
  err : String
  requests : List String

namespace Report

/-- The report of a command without a fault. -/
def success (out : String) : Report := ⟨0, out, "", []⟩

/-- The report of a failure outside the language, with its immediate cause. -/
def failure (out context cause : String) : Report :=
  ⟨1, out, "Error: " ++ context ++ "\n\nCaused by:\n    " ++ cause ++ "\n", []⟩

end Report

/-- What `--version` shows. -/
def versionLine : String := "pron 0.1.0\n"

/-- How the program is called. -/
def usage : String :=
  "Usage: pron [--log] [--log-file <LOG_FILE>] [--class-path <CLASS_PATH>] [run <FILE> | tokenize <FILE> | "
    ++ "parse [--json] <FILE> | repl]\n"

/-- Goes on with the text of a file. -/
def withSource (files : Files) (path : String) (next : String → Report) : Report :=
  match files.openFile path with
  | .error e => .failure "" ("Failed to open file " ++ Text.quotedPath path) e.message
  | .ok .directory => .failure "" ("Failed to read file " ++ Text.quotedPath path) FileError.isADirectory.message
  | .ok (.file bytes) =>
    match Text.decodeUtf8 bytes with
    | .error e => .failure "" ("File " ++ Text.quotedPath path ++ " is not valid UTF-8") e.message
    | .ok source => next source

/-- Runs a program and shows its value. Syntax errors are shown, but the program is run all the same. -/
def run (library : Library) (source : String) : Report :=
  let parsed := parseSource source
  let errors := if parsed.errors.isEmpty then "" else listErrors parsed.errors
  let (outcome, session) := Session.start.run library parsed.program
  let before := errors ++ session.store.printed
  let requests := session.store.requests
  match outcome with
  | .value v | .returned v => ⟨0, before ++ valueLine session.store v, "", requests⟩
  | .failed e => ⟨70, before ++ errorLine e, "", requests⟩
  | .tooDeep => ⟨70, before, "", requests⟩

/-- Runs a source file. -/
def runFile (files : Files) (path classPath : String) : Report :=
  match SourcePath.check path with
  | .error problem => ⟨65, "ERROR: " ++ problem.message ++ "\n", "", []⟩
  | .ok () => withSource files path (run (files.library classPath))

/-- Lists the tokens of a source, the illegal ones as errors. -/
def tokenize (source : String) : Report :=
  let (illegal, legal) := (scan source).partition (·.kind = .illegal)
  { status := if illegal.isEmpty then 0 else 65
    out := String.join (legal.map fun t => t.render ++ "\n")
    err := String.join (illegal.map fun t => s!"[line {t.line}] Error: Unexpected token: {t.literal}\n")
    requests := [] }

/-- Shows what was read of a program, as a canonical text or in JSON. -/
def showProgram (json : Bool) (source : String) : Report :=
  let parsed := parseSource source
  let out := (if json then (blockJson parsed.program).pretty else renderBlock parsed.program) ++ "\n"
  if parsed.errors.isEmpty then .success out else ⟨65, out, listErrors parsed.errors, []⟩

/-- The first line of a session. -/
def greeting (user : Option String) : String := "Hello " ++ user.getD "there" ++ "! Welcome to Pron-Lang\n"

/-- Why a session ended before its input. -/
def sessionFailed (out : String) : Report := .failure out "REPL I/O failed" Prompt.notText

/-- A session with the lines of an input. -/
def repl (library : Library) (user : Option String) (input : List UInt8) : Report :=
  let transcript := Prompt.run library (Prompt.splitLines input) .start
  let out := greeting user ++ transcript.interleaved
  let report := if transcript.broken then sessionFailed out else .success out
  { report with requests := transcript.session.store.requests }

/-- Performs a command. -/
def perform (files : Files) (user : Option String) (input : List UInt8) (i : Invocation) : Report :=
  match i.command with
  | .run path => runFile files path i.classPath
  | .tokenize path => withSource files path tokenize
  | .parse path json => withSource files path (showProgram json)
  | .repl => repl (files.library i.classPath) user input

/-- Makes the log file if one is wanted, and performs the command on the files that are then there. -/
def invoke (system : FileSystem) (user : Option String) (input : List UInt8) (i : Invocation) : Report :=
  if i.log then
    match system.afterCreating i.logFile with
    | .error e => .failure "" ("Failed to create " ++ Text.quotedPath i.logFile) e.message
    | .ok files => perform files user input i
  else perform system.files user input i

/-- The report for the arguments of a command line. -/
def execute (system : FileSystem) (user : Option String) (input : List UInt8) (arguments : List String) : Report :=
  match readArguments arguments with
  | some (.invoke i) => invoke system user input i
  | some .version => .success versionLine
  | some .help => .success usage
  | none => ⟨2, "", usage, []⟩

end Pron.CommandLine
