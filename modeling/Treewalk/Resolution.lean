import Treewalk.Scope

/-! Resolution: before a program runs, every occurrence of a local name is given its distance, the
number of scopes between the occurrence and the declaration it means, and every misuse of names is
found. A name that no scope declares is global and has no distance. -/

namespace Treewalk

/-- What resolution says about one occurrence or one misuse. -/
inductive Finding
  | distance (id : NodeId) (scopes : Nat)
  | fault (token : Token) (fault : ResolveFault)

/-- The distance of an occurrence, if its name is local. -/
def Reference.locate (ctx : Context) (ref : Reference) : List Finding :=
  match ctx.distance? ref.name.lexeme with
  | some d => [.distance ref.id d]
  | none => []

/-- A second declaration of a name in one local scope. -/
def Token.duplicate (ctx : Context) (name : Token) : List Finding :=
  if ctx.declaresHere name.lexeme then [.fault name .duplicateName] else []

/-- A name is read. It must not be the one whose initial value is being read: in a local scope that
is a pending name, and outside of all scopes the global `pending`. -/
def Reference.read (ctx : Context) (pending : Option String) (ref : Reference) : List Finding :=
  let own := match ctx.scopes with
    | [] => pending == some ref.name.lexeme
    | _ :: _ => ctx.isPending ref.name.lexeme
  (if own then [.fault ref.name .ownInitializer] else []) ++ ref.locate ctx

mutual

/-- What is found in an expression, `pending` being the global whose initial value it is. -/
def Expr.findings (ctx : Context) (pending : Option String) : Expr → List Finding
  | .literal _ => []
  | .unary _ operand => operand.findings ctx pending
  | .binary left _ right | .logical left _ right =>
    left.findings ctx pending ++ right.findings ctx pending
  | .grouping inner => inner.findings ctx pending
  | .variable target => target.read ctx pending
  | .assign target value => value.findings ctx pending ++ target.locate ctx
  | .call callee _ arguments =>
    callee.findings ctx pending ++ Expr.allFindings ctx pending arguments
  | .get object _ => object.findings ctx pending
  | .set object _ value => value.findings ctx pending ++ object.findings ctx pending
  | .this receiver =>
    match ctx.classContext with
    | .outside => [.fault receiver.name .thisOutsideClass]
    | _ => receiver.locate ctx
  | .parent keyword _ =>
    (match ctx.classContext with
      | .outside => [.fault keyword.name .parentOutsideClass]
      | .withoutParent => [.fault keyword.name .parentWithoutParent]
      | .withParent => []) ++ keyword.locate ctx

def Expr.allFindings (ctx : Context) (pending : Option String) : List Expr → List Finding
  | [] => []
  | e :: rest => e.findings ctx pending ++ Expr.allFindings ctx pending rest

end

/-- The name that a statement adds to the scope around it. -/
def Stmt.declared? : Stmt → Option Token
  | .var name _ => some name
  | .function decl => some decl.name
  | .classDecl name _ _ => some name
  | _ => none

/-- The surroundings of what follows a statement. -/
def Context.after (ctx : Context) (s : Stmt) : Context :=
  match s.declared? with
  | some name => ctx.define name.lexeme
  | none => ctx

/-- The parameters of a function, one after the other, in its scope. -/
def parameterFindings (ctx : Context) : List Token → List Finding
  | [] => []
  | p :: rest => p.duplicate ctx ++ parameterFindings (ctx.define p.lexeme) rest

/-- The surroundings of a function's body: its parameters and its body share one scope. -/
def Context.body (ctx : Context) (kind : FunctionContext) (params : List Token) : Context :=
  params.foldl (fun ctx p => ctx.define p.lexeme) { ctx.enter with function := kind }

/-- The surroundings of the methods of a class: a scope for `parent` if there is one, and one for
`this`. -/
def Context.methods (ctx : Context) (parent : Option Reference) : Context :=
  match parent with
  | some _ => { (ctx.bind "parent").bind "this" with classContext := .withParent }
  | none => { ctx.bind "this" with classContext := .withoutParent }

/-- A class is declared with its parent: the parent must be another class. -/
def parentFindings (ctx : Context) (name : Token) (parent : Reference) : List Finding :=
  (if parent.name.lexeme = name.lexeme then [.fault parent.name .selfInheritance] else []) ++
    parent.read ctx none

mutual

/-- What is found in a statement. -/
def Stmt.findings (ctx : Context) : Stmt → List Finding
  | .expression value | .print value => value.findings ctx none
  | .var name none => name.duplicate ctx
  | .var name (some initial) =>
    name.duplicate ctx ++ initial.findings (ctx.declare name.lexeme) (some name.lexeme)
  | .block body => Stmt.allFindings ctx.enter body
  | .branch condition whenTrue none =>
    condition.findings ctx none ++ whenTrue.findings ctx
  | .branch condition whenTrue (some whenFalse) =>
    condition.findings ctx none ++ whenTrue.findings ctx ++ whenFalse.findings ctx
  | .loop condition body => condition.findings ctx none ++ body.findings ctx
  | .function decl =>
    decl.name.duplicate ctx ++ decl.findings (ctx.define decl.name.lexeme) .function
  | .giveBack keyword value =>
    (if ctx.function = .topLevel then [.fault keyword .topLevelReturn] else []) ++
      match value with
      | none => []
      | some value =>
        (if ctx.function = .initializer then [.fault keyword .initializerReturn] else []) ++
          value.findings ctx none
  | .classDecl name parent methods =>
    let ctx' := ctx.define name.lexeme
    name.duplicate ctx ++
      (match parent with
        | some ref => parentFindings ctx' name ref
        | none => []) ++
      FunctionDecl.methodFindings (ctx'.methods parent) methods

/-- What is found in consecutive statements: each one sees the names declared before it. -/
def Stmt.allFindings (ctx : Context) : List Stmt → List Finding
  | [] => []
  | s :: rest => s.findings ctx ++ Stmt.allFindings (ctx.after s) rest

/-- What is found in a function declared here. -/
def FunctionDecl.findings (ctx : Context) (kind : FunctionContext) :
    FunctionDecl → List Finding
  | ⟨_, params, body⟩ =>
    parameterFindings ctx.enter params ++ Stmt.allFindings (ctx.body kind params) body

def FunctionDecl.methodFindings (ctx : Context) : List FunctionDecl → List Finding
  | [] => []
  | decl :: rest =>
    decl.findings ctx (.ofMethod decl.name) ++ FunctionDecl.methodFindings ctx rest

end

/-- What is found in a whole program. -/
def Program.findings (program : Program) : List Finding :=
  Stmt.allFindings .outermost program

/-- The distances of the local occurrences, by number. -/
abbrev Distances := Std.TreeMap NodeId Nat

/-- Adds the distances that were found to those known before. -/
def Distances.record (known : Distances) (findings : List Finding) : Distances :=
  findings.foldl
    (fun known finding =>
      match finding with
      | .distance id d => known.insert id d
      | .fault .. => known)
    known

/-- The misuses among the findings, in the order found. -/
def misuses (findings : List Finding) : List Diagnostic :=
  findings.filterMap fun
    | .distance .. => none
    | .fault token fault => some (.resolve token fault)

end Treewalk
