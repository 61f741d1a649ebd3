import Std.Time.DateTime.Timestamp
import Treewalk.Invocation

/-! The program at the console: it reads what the command names, and prints what the library
answers. -/

open Treewalk

/-- A host whose clock starts now. -/
def consoleHost : IO Host := do
  let now ← Std.Time.Timestamp.now
  return .clock now.toMillisecondsSinceUnixEpoch.val.toNat

/-- Prints output and complaints. -/
def consolePrint (out : ByteArray) (err : String) : IO Unit := do
  let stdout ← IO.getStdout
  stdout.write out
  stdout.flush
  (← IO.getStderr).putStr err

/-- The content of a file, or why it cannot be read. The system counts the numbers of causes down
from zero. -/
def consoleRead (name : String) : IO (Except Unreadable ByteArray) := do
  try
    return .ok (← IO.FS.readBinFile name)
  catch error =>
    let number :=
      match error with
      | .noFileOrDirectory _ n _ | .permissionDenied _ n _ | .inappropriateType _ n _
      | .invalidArgument _ n _ => n.toInt32.toInt.natAbs
      | _ => 0
    return .error ((Unreadable.ofNumber? number).getD (.other (toString error)))

/-- The next line of the input with its newline, `line` being read of it in reverse; empty at the
end of the input. -/
partial def consoleLine (line : List UInt8) : IO (List UInt8) := do
  match (← (← IO.getStdin).read 1).toList with
  | [10] => return (10 :: line).reverse
  | [] => return line.reverse
  | more => consoleLine (more.reverse ++ line)

/-- Answers lines until one of them, or the end of the input, stops the prompt. -/
partial def consolePrompt (session : Session) : IO UInt32 := do
  match ← consoleLine [] with
  | [] => return 0
  | line =>
    match Prompt.text? line with
    | none =>
      consolePrint .empty Prompt.notText
      return exitFailure.toUInt32
    | some text =>
      match Prompt.answer? (← consoleHost) session text with
      | none => return 0
      | some (out, err, session) =>
        consolePrint out err
        consolePrompt session

def main (words : List String) : IO UInt32 := do
  match Command.parse words with
  | .usage =>
    consolePrint .empty "error: unexpected arguments\n"
    return exitUsage.toUInt32
  | .version =>
    consolePrint versionLine.toUTF8 ""
    return 0
  | .run options =>
    if options.logging then IO.FS.writeFile logName ""
    match options.script with
    | none =>
      consolePrint Prompt.greeting.toUTF8 ""
      consolePrompt (.initial .unbounded)
    | some name =>
      let shown := Script.transcript (← consoleHost) name (← consoleRead name) options.form
      consolePrint shown.out shown.err
      return shown.exit.toUInt32
