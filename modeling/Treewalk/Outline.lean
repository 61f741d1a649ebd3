import Treewalk.Syntax

/-! The outline of a program: its tree in prefix notation, every node in parentheses. -/

namespace Treewalk

/-- Numbers in an outline are exact if they are whole, with a zero behind the point, and have their
fewest digits if they are not. -/
def outlineNumber (x : Float) : List Char :=
  match Reading.ofFloat x with
  | .finite d =>
    if d.isWhole then signed d.negative (Nat.toDigits 10 d.whole ++ ['.', '0'])
    else (Reading.finite d).plain
  | reading => reading.plain

example : outlineNumber 1e23 = "99999999999999991611392.0".toList := by decide
example : outlineNumber 0.5 = "0.5".toList := by decide

/-- A string stands as it is, without quotes. -/
def Literal.outline : Literal → String
  | number value => String.ofList (outlineNumber value)
  | string contents => contents
  | bool true => "true"
  | bool false => "false"
  | null => "null"

/-- Each text behind a space. -/
def spaced (texts : List String) : String :=
  texts.foldr (fun text rest => " " ++ text ++ rest) ""

/-- Texts with a separator between them. -/
def separated (separator : String) (texts : List String) : String :=
  separator.intercalate texts

mutual

def Expr.outline : Expr → String
  | .literal value => value.outline
  | .unary operator operand => "(" ++ operator.lexeme ++ " " ++ operand.outline ++ ")"
  | .binary left operator right | .logical left operator right =>
    "(" ++ operator.lexeme ++ " " ++ left.outline ++ " " ++ right.outline ++ ")"
  | .grouping inner => "(group " ++ inner.outline ++ ")"
  | .variable target => target.name.lexeme
  | .assign target value => "(= " ++ target.name.lexeme ++ " " ++ value.outline ++ ")"
  | .call callee _ arguments =>
    "(call " ++ callee.outline ++ spaced (Expr.outlines arguments) ++ ")"
  | .get object name => "(. " ++ object.outline ++ " " ++ name.lexeme ++ ")"
  | .set object name value =>
    "(.= " ++ object.outline ++ " " ++ name.lexeme ++ " " ++ value.outline ++ ")"
  | .this _ => "this"
  | .parent _ method => "(parent " ++ method.lexeme ++ ")"

def Expr.outlines : List Expr → List String
  | [] => []
  | e :: rest => e.outline :: Expr.outlines rest

end

theorem Expr.outlines_eq_map (es : List Expr) : Expr.outlines es = es.map Expr.outline := by
  induction es with
  | nil => rfl
  | cons e rest ih => simp [Expr.outlines, ih]

mutual

def FunctionDecl.outline (word : String) : FunctionDecl → String
  | ⟨name, params, body⟩ =>
    "(" ++ word ++ " " ++ name.lexeme ++ "(" ++ separated " " (params.map Token.lexeme) ++ ") " ++
      separated " " (Stmt.outlines body) ++ ")"

def FunctionDecl.outlines (word : String) : List FunctionDecl → List String
  | [] => []
  | decl :: rest => decl.outline word :: FunctionDecl.outlines word rest

def Stmt.outline : Stmt → String
  | .expression value => "(; " ++ value.outline ++ ")"
  | .print value => "(print " ++ value.outline ++ ")"
  | .var name (some initial) => "(var " ++ name.lexeme ++ " " ++ initial.outline ++ ")"
  | .var name none => "(var " ++ name.lexeme ++ ")"
  | .block body => "(block" ++ spaced (Stmt.outlines body) ++ ")"
  | .branch condition whenTrue (some whenFalse) =>
    "(if " ++ condition.outline ++ " " ++ whenTrue.outline ++ " " ++ whenFalse.outline ++ ")"
  | .branch condition whenTrue none =>
    "(if " ++ condition.outline ++ " " ++ whenTrue.outline ++ ")"
  | .loop condition body => "(while " ++ condition.outline ++ " " ++ body.outline ++ ")"
  | .function decl => decl.outline "func"
  | .giveBack _ (some value) => "(return " ++ value.outline ++ ")"
  | .giveBack _ none => "(return)"
  | .classDecl name parent methods =>
    "(class " ++ name.lexeme ++
      (match parent with
        | some ref => " < " ++ ref.name.lexeme
        | none => "") ++
      spaced (FunctionDecl.outlines "method" methods) ++ ")"

def Stmt.outlines : List Stmt → List String
  | [] => []
  | s :: rest => s.outline :: Stmt.outlines rest

end

theorem Stmt.outlines_eq_map (ss : List Stmt) : Stmt.outlines ss = ss.map Stmt.outline := by
  induction ss with
  | nil => rfl
  | cons s rest ih => simp [Stmt.outlines, ih]

/-- One line for each top-level statement. -/
def Program.outline (program : Program) : String :=
  separated "\n" (Stmt.outlines program)

end Treewalk
