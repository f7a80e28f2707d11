import Pron.CommandLine

/-!
# The program

Everything that touches the outside stands here. Commands are pure: they see files through the answers gathered so far.
After a run the units that it looked for are read, and as long as there are new ones the command is run again with them;
only the report of the last run is shown.
-/

namespace Pron.Main

/-- Paths with the answers of the file system. -/
abbrev Known := List (String × Except FileError FileNode)

/-- The reason for which the system refused. -/
def fileError : IO.Error → FileError
  | .noFileOrDirectory _ _ _ => .notFound
  | .inappropriateType _ 20 _ => .notADirectory
  | .inappropriateType _ 21 _ => .isADirectory
  | e => .other (toString e)

/-- Asks the file system for a path. -/
def look (path : String) : IO (Except FileError FileNode) := do
  match ← (IO.FS.readBinFile path).toBaseIO with
  | .ok bytes => return .ok (.file bytes.toList)
  | .error e =>
    match fileError e with
    | .isADirectory => return .ok .directory
    | e => return .error e

/-- Makes or empties a file. -/
def create (path : String) : IO (Except FileError Unit) := do
  match ← (IO.FS.writeFile path "").toBaseIO with
  | .ok () => return .ok ()
  | .error e => return .error (fileError e)

/-- Files that answer what is known. -/
def filesOf (known : Known) : Files where
  openFile path := (known.lookup path).getD (.error .notFound)

/-- Answers for those of some paths that are not known yet. -/
def lookAll (known : Known) : List String → IO Known
  | [] => return known
  | path :: rest => do
    if (known.lookup path).isSome then lookAll known rest
    else lookAll ((path, ← look path) :: known) rest

/-- The paths of the units that were looked for. -/
def unitPaths (i : CommandLine.Invocation) (requests : List String) : List String :=
  requests.map fun className => SourcePath.join i.classPath (SourcePath.unitName className)

/-- Runs until no unit is asked for that is not known. -/
partial def settle (run : Files → α) (requests : α → List String) (known : Known) : IO (α × Known) := do
  let result := run (filesOf known)
  let more ← lookAll known (requests result)
  if more.length = known.length then return (result, known) else settle run requests more

/-- The files that a command reads whatever happens. -/
def sources : CommandLine.Command → List String
  | .run path | .tokenize path | .parse path _ => [path]
  | .repl => []

/-- The interactive prompt, line by line. -/
partial def prompt (i : CommandLine.Invocation) (session : Session) (known : Known) : IO UInt32 := do
  let (input, output) := (← IO.getStdin, ← IO.getStdout)
  output.putStr Prompt.sign
  output.flush
  match ← input.getLine.toBaseIO with
  | .error _ =>
    IO.eprint (CommandLine.sessionFailed "").err
    return 1
  | .ok line =>
    if line.isEmpty then return 0
    let text := match Prompt.splitLines line.toUTF8.toList with
      | bytes :: _ => (Text.decodeUtf8 bytes).toOption.getD ""
      | [] => ""
    if Text.trim text = Prompt.quit then return 0
    let ((response, session), known) ← settle (fun files => Prompt.evalLine (files.library i.classPath) text session)
      (fun result => unitPaths i result.2.store.requests) known
    output.putStr (response.printed ++ response.shown)
    prompt i session known

/-- Shows a report. -/
def present (report : CommandLine.Report) : IO UInt32 := do
  IO.print report.out
  IO.eprint report.err
  return report.status.toUInt32

/-- Performs what the arguments ask for. -/
def execute (arguments : List String) : IO UInt32 := do
  match CommandLine.readArguments arguments with
  | some (.invoke i) =>
    let created ← if i.log then create i.logFile else pure (.ok ())
    match i.command, created with
    | .repl, .ok () =>
      IO.print (CommandLine.greeting (← IO.getEnv "USER"))
      prompt i .start []
    | command, created =>
      -- the log file is there before anything is looked up
      let (report, _) ← settle
        (fun files => CommandLine.execute ⟨files, fun _ => created.map fun () => files⟩ none [] arguments)
        (fun report => unitPaths i report.requests) (← lookAll [] (sources command))
      present report
  | _ => present (CommandLine.execute ⟨filesOf [], fun _ => .ok (filesOf [])⟩ none [] arguments)

end Pron.Main

def main (arguments : List String) : IO UInt32 := Pron.Main.execute arguments
