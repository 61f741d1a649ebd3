import Treewalk.Session
import Treewalk.Surroundings
import Treewalk.Text.Blank

/-! The prompt: source texts line by line in one session, with two commands, one that clears the
screen and one that lists the globals. -/

namespace Treewalk

/-- What a program shows: ordinary output and complaints apart, and the exit code. -/
structure Transcript where
  out : ByteArray
  err : String
  exit : Nat

/-- Exit codes. -/
def exitFailure : Nat := 1
def exitStatic : Nat := 65
def exitRuntime : Nat := 70

/-- Each text on a line of its own. -/
def linesOf (texts : List String) : String :=
  texts.foldr (fun text rest => text ++ "\n" ++ rest) ""

/-- The complaints about a run: every fault, and then a summary. -/
def Report.complaints (r : Report) : String :=
  linesOf
    (r.errors.map (·.notice.text) ++
      r.halt.toList.map (·.notice.text) ++
      (if r.hadError then ["Errors found in file."] else []) ++
      (if r.hadRuntimeError then ["Error occurred at runtime."] else []))

/-- What was printed since the last time this was asked, and the session with nothing printed. -/
def Session.takeOutput (s : Session) : ByteArray × Session :=
  let sink := { s.machine.sink with written := .empty }
  (s.machine.sink.written, { s with machine := { s.machine with sink } })

/-- A complaint about the surroundings, with its cause. -/
def failure (what : String) (cause : Unreadable) : String :=
  "Error: " ++ what ++ "\n\nCaused by:\n    " ++ cause.message ++ "\n"

namespace Prompt

def banner : String := "\nFend REPL: Enter a line of fend to begin.\n"

/-- What is shown before the first line is read. -/
def greeting : String := banner ++ "\n"

/-- What a line asks for. -/
inductive Request
  | stop
  | clear
  | listGlobals
  | run (source : String)
  deriving DecidableEq, Repr

/-- An empty line stops the prompt. Commands may stand between blanks; all else is source text. -/
def Request.ofLine (line : String) : Request :=
  if line = "" then stop
  else
    match String.ofList (Text.trim line.toList) with
    | "cls" => clear
    | "env" => listGlobals
    | _ => run line

example : Request.ofLine " env\t" = .listGlobals := by decide +kernel
example : Request.ofLine " " = .run " " := by decide +kernel

/-- The text that clears a screen and puts the cursor in its corner. -/
def clearScreen : String := "\x1b[2J\x1b[1;1H"

/-- The globals, one to a line, and an empty line. -/
def listing (s : Session) : String :=
  linesOf (s.globals.map fun (name, v) => name ++ " : " ++ v.text) ++ "\n"

/-- What answers a line: output and complaints, and the session for the next line; nothing, if the
prompt stops. -/
def answer? (host : Host) (s : Session) (line : String) : Option (ByteArray × String × Session) :=
  match Request.ofLine line with
  | .stop => none
  | .clear => some ((clearScreen ++ banner ++ "\n\n").toUTF8, "", s)
  | .listGlobals => some ((listing s).toUTF8, "", s)
  | .run source =>
    let (report, s) := s.run host source
    let (out, s) := s.takeOutput
    some (out, report.complaints, s)

/-- A line without the newline that ends it, and without one carriage return before that. -/
def withoutEnd (line : List UInt8) : List UInt8 :=
  match line.reverse with
  | 10 :: 13 :: rest => rest.reverse
  | 10 :: rest => rest.reverse
  | _ => line

/-- The text of a line, if it is text. -/
def text? (line : List UInt8) : Option String :=
  String.fromUTF8? (ByteArray.mk (withoutEnd line).toArray)

/-- The lines of an input, each with the newline that ends it. -/
def splitLines (line : List UInt8) : List UInt8 → List (List UInt8)
  | [] => if line.isEmpty then [] else [line.reverse]
  | b :: rest => if b = 10 then (b :: line).reverse :: splitLines [] rest
    else splitLines (b :: line) rest

/-- The complaint about a line that is not text. -/
def notText : String := failure "Failed to read from stdin" .notText

/-- Answers lines up to the one that stops the prompt. A line that is not text ends it with a
complaint. -/
def answerAll (host : Host) (s : Session) (before : Transcript) : List (List UInt8) → Transcript
  | [] => before
  | line :: rest =>
    match text? line with
    | none => { before with err := before.err ++ notText, exit := exitFailure }
    | some text =>
      match answer? host s text with
      | none => before
      | some (out, err, s) =>
        answerAll host s { before with out := before.out ++ out, err := before.err ++ err } rest

/-- The prompt over a whole input. -/
def transcript (host : Host) (input : ByteArray) : Transcript :=
  answerAll host (.initial .unbounded) ⟨greeting.toUTF8, "", 0⟩ (splitLines [] input.toList)

end Prompt

end Treewalk
