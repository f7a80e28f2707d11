import Pron.Session
import Pron.Text.Blank

/-!
# The interactive prompt

Each line is a program of its own in one session. A line with syntax errors is not run, the errors are shown instead.
Of other lines the value is shown, unless it is `null`, or the error. A line `quit` ends the session, and so does the
end of the input.
-/

namespace Pron.Prompt

/-- What stands before each line of input. -/
def sign : String := ">> "

/-- The line that ends a session. -/
def quit : String := "quit"

/-- The listing of syntax errors. -/
def listErrors (errors : List SyntaxError) : String :=
  " parser errors:\n" ++ String.join (errors.map fun e => "\t- " ++ e.message ++ "\n")

/-- The line that reports a runtime error. -/
def errorLine (e : RuntimeError) : String := "ERROR: " ++ e.message ++ "\n"

/-- The line that shows a value; none for `null`. -/
def valueLine (s : Store) (v : Value) : String := if v = .null then "" else s.display v ++ "\n"

/-- The line that shows an outcome. -/
def outcomeLine (s : Store) : Outcome → String
  | .value v | .returned v => valueLine s v
  | .failed e => errorLine e
  | .tooDeep => ""

/-- What appears while a line is handled: first what the program prints, then what the prompt shows. -/
structure Response where
  printed : String
  shown : String

/-- Handles one line. -/
def evalLine (library : Library) (line : String) (session : Session) : Response × Session :=
  let parsed := parseSource line
  if parsed.errors.isEmpty then
    let (outcome, session) := session.run library parsed.program
    let (printed, session) := session.takePrinted
    (⟨printed, outcomeLine session.store outcome⟩, session)
  else (⟨"", listErrors parsed.errors⟩, session)

/-- The lines of an input, without their ends: a line feed, and a carriage return before it. -/
def splitLines (input : List UInt8) : List (List UInt8) :=
  go [] input
where
  /-- The lines from a point on, with what the current line holds so far, in reverse. -/
  go (line : List UInt8) : List UInt8 → List (List UInt8)
    | [] => if line.isEmpty then [] else [line.reverse]
    | 10 :: rest => (match line with | 13 :: before => before.reverse | _ => line.reverse) :: go [] rest
    | b :: rest => go (b :: line) rest

/-- What a session leaves: the responses to its lines, whether it met a line that is no text, and its state. -/
structure Transcript where
  responses : List Response
  broken : Bool
  session : Session

/-- Handles the lines of an input up to the one that ends the session. -/
def run (library : Library) : List (List UInt8) → Session → Transcript
  | [], session => ⟨[], false, session⟩
  | bytes :: rest, session =>
    match Text.decodeUtf8 bytes with
    | .error _ => ⟨[], true, session⟩
    | .ok line =>
      if Text.trim line = quit then ⟨[], false, session⟩
      else
        let (response, session) := evalLine library line session
        let transcript := run library rest session
        { transcript with responses := response :: transcript.responses }

namespace Transcript

/-- Everything the prompt shows. -/
def screen (t : Transcript) : String :=
  String.join (t.responses.map fun r => sign ++ r.shown) ++ sign

/-- Everything the programs print. -/
def printed (t : Transcript) : String := String.join (t.responses.map Response.printed)

/-- What appears when programs and prompt share one screen. -/
def interleaved (t : Transcript) : String :=
  String.join (t.responses.map fun r => sign ++ r.printed ++ r.shown) ++ sign

end Transcript

/-- The reason given for a line that is no text. -/
def notText : String := "stream did not contain valid UTF-8"

end Pron.Prompt
