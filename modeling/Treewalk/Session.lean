import Treewalk.Evaluation
import Treewalk.Grammar.Statement
import Treewalk.Source.Item

/-! Sessions: one machine that runs source texts one after the other. Names, functions and objects
of one text are there for the next, and no two occurrences of names in a session share a
number. -/

namespace Treewalk

/-- What persists from one text to the next. -/
structure Session where
  machine : Machine
  nextId : NodeId

/-- What one run reports: the faults that kept it from starting, or why it stopped. -/
structure Report where
  errors : List Diagnostic
  halt : Option Halt

namespace Report

def hadError (r : Report) : Bool := !r.errors.isEmpty

def hadRuntimeError (r : Report) : Bool := r.halt.isSome

end Report

/-- A depth of evaluation that no run reaches: counting to it takes longer than any run lasts. -/
def evaluationDepth : Nat := Nat.pow 2 62

namespace Session

/-- A session that has run nothing yet. -/
def initial (sink : Sink) : Session := ⟨.initial sink, 0⟩

/-- Reads a program from a source text. All lexical faults come before all faults of the grammar;
numbers spent on a text with faults are not given out again. -/
def parse (s : Session) (source : String) : Except (List Diagnostic) Program × Session :=
  let parsed := Treewalk.parse (Source.tokens source) (Source.endMark source) s.nextId
  let faults := Source.faults source ++ parsed.faults
  (if faults.isEmpty then .ok parsed.program else .error faults, { s with nextId := parsed.nextId })

/-- Runs an action on the machine. -/
def perform {α : Type} (s : Session) (action : Action α) : Except Halt α × Session :=
  match action.run s.machine with
  | .ok a m => (.ok a, { s with machine := m })
  | .error halt m => (.error halt, { s with machine := m })

/-- Adds distances that were found to those of earlier texts. -/
def adopt (s : Session) (findings : List Finding) : Session :=
  { s with
    machine := { s.machine with distances := s.machine.distances.record findings } }

/-- Runs a program whose distances are known, to a depth. -/
def executeWithin (depth : Nat) (host : Host) (s : Session) (program : Program) :
    Option Halt × Session :=
  match s.perform (interpret host depth program) with
  | (.ok _, s) => (none, s)
  | (.error halt, s) => (some halt, s)

/-- Runs a source text to a depth. Resolution starts only after a clean parse, and execution only
after a clean resolution. -/
def runWithin (depth : Nat) (host : Host) (s : Session) (source : String) : Report × Session :=
  match s.parse source with
  | (.error faults, s) => (⟨faults, none⟩, s)
  | (.ok program, s) =>
    let findings := program.findings
    match misuses findings with
    | [] =>
      let (halt, s) := executeWithin depth host (s.adopt findings) program
      (⟨[], halt⟩, s)
    | faults => (⟨faults, none⟩, s)

/-- Runs a program whose distances are known. -/
def execute (s : Session) (host : Host) (program : Program) : Option Halt × Session :=
  executeWithin evaluationDepth host s program

/-- Runs a source text. -/
def run (s : Session) (host : Host) (source : String) : Report × Session :=
  runWithin evaluationDepth host s source

/-- The global names with their values, in the order of the names. -/
def globals (s : Session) : List (String × Value) :=
  s.machine.store.bindings s.machine.globals

end Session

end Treewalk
