import Treewalk.Outline
import Treewalk.Prompt
import Treewalk.SyntaxJson
import Treewalk.Text.Quoted

/-! The command line: its options, and what a script does when it is run or shown in another
form. -/

namespace Treewalk

/-- A form in which a script is shown instead of run. -/
inductive Form
  | tokens
  | ast
  | json
  deriving DecidableEq, Repr

def Form.ofName? : String → Option Form
  | "tokens" => some tokens
  | "ast" => some ast
  | "json" => some json
  | _ => none

/-- The options given so far. -/
structure Options where
  script : Option String
  form : Option Form
  logging : Bool
  deriving DecidableEq, Repr

/-- What a command line asks for. -/
inductive Command
  | usage
  | version
  | run (options : Options)
  deriving DecidableEq, Repr

namespace Command

/-- Only a script can be shown in another form. -/
def ofOptions (options : Options) : Command :=
  if options.form.isSome && options.script.isNone then usage else run options

/-- One script at most, and its name has characters. -/
def withScript? (options : Options) (name : String) : Option Options :=
  if options.script.isSome || name.isEmpty then none else some { options with script := some name }

/-- One form at most, and a known one. -/
def withForm? (options : Options) (name : String) : Option Options :=
  if options.form.isSome then none
  else (Form.ofName? name).map fun form => { options with form := some form }

/-- Words behind the mark that ends the options. -/
def ofOperands (options : Options) : List String → Command
  | [] => ofOptions options
  | word :: rest =>
    match withScript? options word with
    | some options => ofOperands options rest
    | none => usage

/-- A word that is no operand: it starts with a hyphen and has more. -/
def looksLikeOption (word : String) : Bool :=
  match word.toList with
  | '-' :: _ :: _ => true
  | _ => false

/-- Reads the words of a command line from left to right. The first one that is wrong, or that asks
for the version, decides. -/
def ofWords (options : Options) : List String → Command
  | [] => ofOptions options
  | word :: rest =>
    match word.toList with
    | ['-', '-'] => ofOperands options rest
    | ['-', '-', 'e', 'm', 'i', 't'] =>
      match rest with
      | [] => usage
      | name :: rest =>
        if looksLikeOption name then usage
        else
          match withForm? options name with
          | some options => ofWords options rest
          | none => usage
    | '-' :: '-' :: 'e' :: 'm' :: 'i' :: 't' :: '=' :: name =>
      match withForm? options (String.ofList name) with
      | some options => ofWords options rest
      | none => usage
    | ['-', '-', 'l', 'o', 'g'] =>
      if options.logging then usage else ofWords { options with logging := true } rest
    | ['-', '-', 'v', 'e', 'r', 's', 'i', 'o', 'n'] => version
    | '-' :: 'V' :: _ => version
    | '-' :: _ :: _ => usage
    | _ =>
      match withScript? options word with
      | some options => ofWords options rest
      | none => usage

/-- The command that these words ask for. -/
def parse (words : List String) : Command :=
  ofWords ⟨none, none, false⟩ words

end Command

/-- The program's name and version. -/
def versionLine : String := "fend 0.1.0\n"

/-- The exit code for a command line that is not understood. -/
def exitUsage : Nat := 2

namespace Script

/-- The text of a script, or why there is none. -/
def source (content : Except Unreadable ByteArray) : Except Unreadable String := do
  match String.fromUTF8? (← content) with
  | some text => return text
  | none => throw .notText

/-- A script that runs. -/
def run (host : Host) (source : String) : Transcript :=
  let (report, s) := (Session.initial .unbounded).run host source
  let exit :=
    if report.hadError then exitStatic else if report.hadRuntimeError then exitRuntime else 0
  ⟨s.machine.sink.written, report.complaints, exit⟩

/-- A script as a listing of its tokens, up to the end mark. -/
def showTokens (source : String) : Transcript :=
  let out := (Source.tokens source ++ [Source.endMark source]).map Token.describe
  let err := (Source.faults source).map (·.notice.text)
  ⟨(linesOf out).toUTF8, linesOf err, if err.isEmpty then 0 else exitStatic⟩

/-- A script as a tree, in some text form. -/
def showProgram (form : Program → String) (source : String) : Transcript :=
  match ((Session.initial .unbounded).parse source).1 with
  | .ok program => ⟨(form program ++ "\n").toUTF8, "", 0⟩
  | .error faults => ⟨.empty, linesOf (faults.map (·.notice.text)), exitStatic⟩

/-- What a script does, or why it cannot be read. -/
def transcript (host : Host) (name : String) (content : Except Unreadable ByteArray)
    (form : Option Form) : Transcript :=
  match source content with
  | .error cause =>
    ⟨.empty, failure ("Could not read file " ++ Text.quote name) cause, exitFailure⟩
  | .ok source =>
    match form with
    | none => run host source
    | some .tokens => showTokens source
    | some .ast => showProgram Program.outline source
    | some .json => showProgram (fun program => program.json.pretty) source

end Script

end Treewalk
