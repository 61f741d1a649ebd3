import Treewalk.Resolution
import Treewalk.Sink
import Treewalk.Store

/-! The machine: the state of a running program and its elementary actions. An action yields a value
and the next state, or it halts, with the state in which it halted. -/

namespace Treewalk

/-- The state of a running program. -/
structure Machine where
  store : Store
  nextIdentity : Identity
  distances : Distances
  globals : FrameId
  active : FrameId
  sink : Sink
  hostCalls : Nat

/-- Why a program stops before its end. -/
inductive Halt
  | fault (token : Token) (fault : RuntimeFault)
  | sink (fault : SinkFault)
  | exhausted

/-- What the user is told about a halt. -/
def Halt.notice : Halt → Notice
  | fault token found => (Diagnostic.runtime token found).notice
  | sink found => (Diagnostic.sink found).notice
  | exhausted => .io "evaluation too deep"

/-- The functions that the host lends to programs. An answer may depend on how many host calls were
made before; an error is the host's own message. -/
structure Host where
  answer : (turn : Nat) → Native → List Value → Except String Value

/-- A host with a clock alone, which shows the time `time turn` at each turn. -/
def Host.reading (time : Nat → Float) : Host where
  answer turn asked _ :=
    if asked.name = "Clock" then .ok (.number (time turn))
    else .error ("No function " ++ asked.name ++ ".")

/-- A host with a clock alone. A reading is later than the one before by a millisecond. -/
def Host.clock (start : Nat) : Host :=
  .reading fun turn => Float.ofNat (start + turn)

/-- How a statement ends. -/
inductive Completion
  | normal
  | returned (v : Value)

/-- The value of a call whose body ended so. -/
def Completion.value : Completion → Value
  | normal => .null
  | returned v => v

/-- An action of the machine. -/
abbrev Action := EStateM Halt Machine

namespace Machine

/-- The function that every program finds among its globals: the time in milliseconds. -/
def clock : Native := ⟨0, "Clock", 0⟩

/-- A machine that has run nothing yet: one global frame, which binds the clock. -/
def initial (sink : Sink) : Machine :=
  let bindings : Bindings := (∅ : Bindings).insert clock.name (.native clock)
  let (globals, store) := Store.empty.addFrame bindings none
  { store, nextIdentity := 1, distances := ∅, globals, active := globals, sink, hostCalls := 0 }

/-- The value of an occurrence: at its distance if it has one, and else among the globals. -/
def value? (m : Machine) (ref : Reference) : Option Value :=
  match m.distances[ref.id]? with
  | some d => m.store.getAt? m.active d ref.name.lexeme
  | none => m.store.get? m.globals ref.name.lexeme

/-- The frame that an occurrence is written to: the one at its distance, bound or not, and without a
distance the global one that binds it. -/
def target? (m : Machine) (ref : Reference) : Option FrameId :=
  match m.distances[ref.id]? with
  | some d => m.store.ancestor? m.active d
  | none => m.store.holder? m.globals ref.name.lexeme

end Machine

namespace Action

def fail {α : Type} (token : Token) (fault : RuntimeFault) : Action α :=
  throw (.fault token fault)

/-- The value of `result`; its fault is found at `token`. -/
def lift {α : Type} (token : Token) (result : Except RuntimeFault α) : Action α :=
  match result with
  | .ok a => return a
  | .error fault => fail token fault

/-- The value of `found`, or else a fault at `token`. -/
def require {α : Type} (token : Token) (fault : RuntimeFault) (found : Option α) : Action α :=
  match found with
  | some a => return a
  | none => fail token fault

/-- Makes a frame. -/
def newFrame (bindings : Bindings) (enclosing : FrameId) : Action FrameId :=
  modifyGet fun m =>
    let (f, store) := m.store.addFrame bindings (some enclosing)
    (f, { m with store })

/-- Takes the next identity. -/
def newIdentity : Action Identity :=
  modifyGet fun m => (m.nextIdentity, { m with nextIdentity := m.nextIdentity + 1 })

/-- Runs `action` with `frame` as the active frame. However it ends, the frame that was active
before is active again. -/
def inFrame {α : Type} (frame : FrameId) (action : Action α) : Action α := fun m =>
  let before := m.active
  match action { m with active := frame } with
  | .ok a m => .ok a { m with active := before }
  | .error halt m => .error halt { m with active := before }

theorem active_of_inFrame_ok {α : Type} {frame : FrameId} {action : Action α} {m m' : Machine}
    {a : α} (h : inFrame frame action m = .ok a m') : m'.active = m.active := by
  unfold inFrame at h
  dsimp only at h
  split at h <;> cases h
  rfl

theorem active_of_inFrame_error {α : Type} {frame : FrameId} {action : Action α}
    {m m' : Machine} {halt : Halt} (h : inFrame frame action m = .error halt m') :
    m'.active = m.active := by
  unfold inFrame at h
  dsimp only at h
  split at h <;> cases h
  rfl

/-- Binds a name in the active frame. -/
def define (name : Token) (v : Value) : Action Unit :=
  modify fun m => { m with store := m.store.define m.active name.lexeme v }

/-- Writes to a name in `frame?`; a name without a frame to write to is undefined. -/
def write (frame? : Option FrameId) (name : Token) (v : Value) : Action Unit := do
  let frame ← require name (.undefinedVariable name.lexeme) frame?
  modify fun m => { m with store := m.store.define frame name.lexeme v }

/-- Reads an occurrence. -/
def lookUp (ref : Reference) : Action Value := do
  require ref.name (.undefinedVariable ref.name.lexeme) ((← get).value? ref)

/-- Writes to an occurrence. -/
def assign (ref : Reference) (v : Value) : Action Unit := do
  write ((← get).target? ref) ref.name v

/-- Prints a line. What fits into the sink is printed even if the line does not fit. -/
def print (line : String) : Action Unit := do
  let taken ← modifyGet fun m =>
    let (sink, taken) := m.sink.write (line ++ "\n").toUTF8
    (taken, { m with sink })
  if !taken then throw (.sink .full)

/-- Ends the output of a program. -/
def flush : Action Unit := do
  if (← get).sink.flushFails then throw (.sink .flushFailed)

/-- A function that is declared here and now. -/
def newClosure (decl : FunctionDecl) (frame : FrameId) (isInitializer : Bool) :
    Action Closure := do
  return ⟨← newIdentity, decl, frame, isInitializer⟩

/-- A method of an instance: the same function in a new frame that binds `this`. -/
def bindMethod (method : Closure) (receiver : Instance) : Action Closure := do
  let frame ← newFrame ((∅ : Bindings).insert "this" (.instanceRef receiver)) method.frame
  return { method with identity := ← newIdentity, frame }

/-- A new instance of a class, without fields. -/
def newInstance (c : Class) : Action Instance :=
  modifyGet fun m =>
    let (identity, store) := m.store.addObject
    (⟨identity, c⟩, { m with store })

/-- Asks the host. -/
def callHost (host : Host) (native : Native) (paren : Token) (args : List Value) :
    Action Value := do
  let turn ← modifyGet fun m => (m.hostCalls, { m with hostCalls := m.hostCalls + 1 })
  lift paren ((host.answer turn native args).mapError .host)

/-- A property of an instance: its field, or else the method of its class. -/
def getProperty (receiver : Instance) (name : Token) : Action Value := do
  match (← get).store.field? receiver.identity name.lexeme with
  | some v => return v
  | none =>
    let method ← require name (.undefinedProperty name.lexeme)
      (receiver.ofClass.method? name.lexeme)
    return .function (← bindMethod method receiver)

def setProperty (receiver : Instance) (name : Token) (v : Value) : Action Unit :=
  modify fun m => { m with store := m.store.setField receiver.identity name.lexeme v }

/-- `parent.method`: the parent class stands at the distance of the keyword, the receiver one frame
nearer. -/
def getParentMethod (keyword : Reference) (method : Token) : Action Value := do
  let m ← get
  let d ← require keyword.name .unresolvedParent m.distances[keyword.id]?
  match m.store.getAt? m.active d "parent" with
  | some (.classRef c) =>
    match d with
    | 0 => fail keyword.name .parentWithoutInstance
    | d + 1 =>
      match m.store.getAt? m.active d "this" with
      | some (.instanceRef receiver) =>
        let found ← require method (.undefinedProperty method.lexeme) (c.method? method.lexeme)
        return .function (← bindMethod found receiver)
      | _ => fail keyword.name .parentWithoutInstance
  | _ => fail keyword.name .parentNotClass

/-- The frame of a class's methods: one that binds `parent` around them, if there is a parent. -/
def methodFrame (parent : Option Class) (frame : FrameId) : Action FrameId :=
  match parent with
  | some c => newFrame ((∅ : Bindings).insert "parent" (.classRef c)) frame
  | none => return frame

def newMethods (frame : FrameId) : List FunctionDecl → Action (List Closure)
  | [] => return []
  | decl :: rest => do
    let first ← newClosure decl frame (decl.name.lexeme == initializerName)
    let others ← newMethods frame rest
    return first :: others

/-- The class that an occurrence names as the parent of another one. -/
def parentClass : Option Reference → Action (Option Class)
  | none => return none
  | some ref => do
    match ← lookUp ref with
    | .classRef c => return some c
    | _ => fail ref.name .parentNotClass

/-- Declares a class. Its name is bound before its methods are made, so that they can use it. -/
def declareClass (name : Token) (parent : Option Reference) (methods : List FunctionDecl) :
    Action Unit := do
  let parent ← parentClass parent
  define name .null
  let frame := (← get).active
  let methods ← newMethods (← methodFrame parent frame) methods
  let own := ⟨← newIdentity, name.lexeme, methods⟩
  write ((← get).store.holder? frame name.lexeme) name (.classRef (.extend parent own))

end Action

/-- The frame contents at the start of a call: parameters with their arguments, in pairs. -/
def argumentBindings (params : List Token) (args : List Value) : Bindings :=
  (params.zip args).foldl (fun bindings (p, v) => bindings.insert p.lexeme v) ∅

end Treewalk
