import Treewalk.Document
import Treewalk.Syntax

/-! Programs as JSON documents. A node is an object whose one member is named for the node's sort;
a sort without parts is a string. -/

namespace Treewalk

/-- The class of a token. -/
def Kind.json : Kind → Document
  | string contents => .single "STRING" (.string contents)
  | number value => .single "NUMBER" (.double value)
  | kind => .string kind.terminal.name

def Token.json (t : Token) : Document :=
  .object [⟨"token_type", t.kind.json⟩, ⟨"lexeme", .string t.lexeme⟩, ⟨"line", .natural t.line⟩]

def Literal.json : Literal → Document
  | number value => .single "Number" (.double value)
  | string contents => .single "Str" (.string contents)
  | bool true => .string "True"
  | bool false => .string "False"
  | null => .string "Null"

/-- A reference by name. -/
def Reference.json (ref : Reference) : Document :=
  .single "Variable" (.object [⟨"id", .natural ref.id⟩, ⟨"name", ref.name.json⟩])

/-- A node with named parts. -/
def Document.node (sort : String) (parts : List Member) : Document :=
  .single sort (.object parts)

mutual

def Expr.json : Expr → Document
  | .literal value => .single "Literal" value.json
  | .unary operator operand =>
    .node "Unary" [⟨"operator", operator.json⟩, ⟨"right", operand.json⟩]
  | .binary left operator right =>
    .node "Binary" [⟨"left", left.json⟩, ⟨"operator", operator.json⟩, ⟨"right", right.json⟩]
  | .logical left operator right =>
    .node "Logical" [⟨"left", left.json⟩, ⟨"operator", operator.json⟩, ⟨"right", right.json⟩]
  | .grouping inner => .single "Grouping" inner.json
  | .variable target => target.json
  | .assign target value =>
    .node "Assign"
      [⟨"id", .natural target.id⟩, ⟨"name", target.name.json⟩, ⟨"value", value.json⟩]
  | .call callee paren arguments =>
    .node "Call"
      [⟨"callee", callee.json⟩, ⟨"paren", paren.json⟩, ⟨"arguments", .array (Expr.jsons arguments)⟩]
  | .get object name => .node "Get" [⟨"object", object.json⟩, ⟨"name", name.json⟩]
  | .set object name value =>
    .node "Set" [⟨"object", object.json⟩, ⟨"name", name.json⟩, ⟨"value", value.json⟩]
  | .this receiver =>
    .node "This" [⟨"id", .natural receiver.id⟩, ⟨"keyword", receiver.name.json⟩]
  | .parent keyword method =>
    .node "Super"
      [⟨"id", .natural keyword.id⟩, ⟨"keyword", keyword.name.json⟩, ⟨"method", method.json⟩]

def Expr.jsons : List Expr → List Document
  | [] => []
  | e :: rest => e.json :: Expr.jsons rest

end

theorem Expr.jsons_eq_map (es : List Expr) : Expr.jsons es = es.map Expr.json := by
  induction es with
  | nil => rfl
  | cons e rest ih => simp [Expr.jsons, ih]

mutual

def FunctionDecl.json : FunctionDecl → Document
  | ⟨name, params, body⟩ =>
    .object [⟨"name", name.json⟩, ⟨"params", .array (params.map Token.json)⟩,
      ⟨"body", .array (Stmt.jsons body)⟩]

def FunctionDecl.jsons : List FunctionDecl → List Document
  | [] => []
  | decl :: rest => decl.json :: FunctionDecl.jsons rest

def Stmt.json : Stmt → Document
  | .expression value => .single "Expression" value.json
  | .print value => .single "Print" value.json
  | .var name initial =>
    .node "Var" [⟨"name", name.json⟩, ⟨"initializer", .ofOption Expr.json initial⟩]
  | .block body => .single "Block" (.array (Stmt.jsons body))
  | .branch condition whenTrue whenFalse =>
    .node "If"
      [⟨"condition", condition.json⟩, ⟨"then_branch", whenTrue.json⟩,
        ⟨"else_branch",
          match whenFalse with
          | some s => s.json
          | none => .null⟩]
  | .loop condition body => .node "While" [⟨"condition", condition.json⟩, ⟨"body", body.json⟩]
  | .function decl => .single "Function" decl.json
  | .giveBack keyword value =>
    .node "Return" [⟨"keyword", keyword.json⟩, ⟨"value", .ofOption Expr.json value⟩]
  | .classDecl name parent methods =>
    .node "Class"
      [⟨"name", name.json⟩, ⟨"parent", .ofOption Reference.json parent⟩,
        ⟨"methods", .array (FunctionDecl.jsons methods)⟩]

def Stmt.jsons : List Stmt → List Document
  | [] => []
  | s :: rest => s.json :: Stmt.jsons rest

end

theorem Stmt.jsons_eq_map (ss : List Stmt) : Stmt.jsons ss = ss.map Stmt.json := by
  induction ss with
  | nil => rfl
  | cons s rest ih => simp [Stmt.jsons, ih]

/-- A program is the array of its top-level statements. -/
def Program.json (program : Program) : Document :=
  .array (Stmt.jsons program)

end Treewalk
