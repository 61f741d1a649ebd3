import Treewalk.CommandLine

/-! A whole run of the program: the log, if one is kept, and then the prompt or a script. -/

namespace Treewalk

/-- The file of the working directory that holds the log. -/
def logName : String := "fend.log"

namespace Options

/-- The surroundings in which the options take effect: a log is begun before anything is read. -/
def prepare (options : Options) (around : Surroundings) : Surroundings :=
  if options.logging then around.put logName .empty else around

/-- What is shown. -/
def transcript (host : Host) (around : Surroundings) (options : Options) : Transcript :=
  match options.script with
  | none => Prompt.transcript host around.input
  | some name => Script.transcript host name (around.read name) options.form

end Options

end Treewalk
