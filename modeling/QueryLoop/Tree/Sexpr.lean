import QueryLoop.Tree.Item

namespace QueryLoop

mutual

def Expr.sexpr : Expr → String
  | .literal _ value => value.text
  | .ident _ name => name
  | .member _ target name [] => "(member " ++ target.sexpr ++ " " ++ name ++ ")"
  | .member _ target name (first :: others) =>
      "(member " ++ target.sexpr ++ " " ++ name ++ "<" ++ first.text ++
        TypeRef.restText others ++ ">)"
  | .call _ callee args => "(call " ++ callee.sexpr ++ " (" ++ Expr.sexprs args ++ "))"
  | .index _ target position => "(index " ++ target.sexpr ++ " " ++ position.sexpr ++ ")"
  | .new _ type args => "(new " ++ type.text ++ " (" ++ Expr.sexprs args ++ "))"
  | .unary _ op operand => "(" ++ op.text ++ " " ++ operand.sexpr ++ ")"
  | .binary _ op lhs rhs => "(" ++ op.text ++ " " ++ lhs.sexpr ++ " " ++ rhs.sexpr ++ ")"
  | .assign _ lhs rhs => "(assign " ++ lhs.sexpr ++ " " ++ rhs.sexpr ++ ")"
  | .lambda _ param body => "(lambda " ++ param ++ " " ++ body.sexpr ++ ")"
  | .paren _ inner => "(paren " ++ inner.sexpr ++ ")"
  | .error _ => "(error)"

def Expr.sexprs : List Expr → String
  | [] => ""
  | [only] => only.sexpr
  | first :: second :: others => first.sexpr ++ " " ++ Expr.sexprs (second :: others)

end

/-- A missing part is written as an empty list. -/
def Expr.sexprOption : Option Expr → String
  | none => "()"
  | some expr => expr.sexpr

def Declarator.sexpr (declarator : Declarator) : String :=
  "(" ++ declarator.name ++ " " ++ Expr.sexprOption declarator.init ++ ")"

def LocalDecl.sexpr (decl : LocalDecl) : String :=
  "(decl " ++ decl.type.text ++ " " ++
    " ".intercalate (decl.declarators.map Declarator.sexpr) ++ ")"

mutual

def Stmt.sexpr : Stmt → String
  | .block _ stmts => "(block" ++ Stmt.sexprsBehind stmts ++ ")"
  | .decl _ declared => declared.sexpr
  | .expr _ value => value.sexpr
  | .ifThen _ cond body => "(if " ++ cond.sexpr ++ " " ++ body.sexpr ++ " ())"
  | .ifElse _ cond body otherwise =>
      "(if " ++ cond.sexpr ++ " " ++ body.sexpr ++ " " ++ otherwise.sexpr ++ ")"
  | .foreach _ type var _ seq body =>
      "(foreach " ++ type.text ++ " " ++ var ++ " " ++ seq.sexpr ++ " " ++ body.sexpr ++ ")"
  | .whileLoop _ cond body => "(while " ++ cond.sexpr ++ " " ++ body.sexpr ++ ")"
  | .continueLoop _ => "continue"
  | .breakLoop _ => "break"
  | .returnValue _ value => "(return " ++ Expr.sexprOption value ++ ")"
  | .empty _ => "(empty)"
  | .error _ => "(error)"

def Stmt.sexprsBehind : List Stmt → String
  | [] => ""
  | stmt :: stmts => " " ++ stmt.sexpr ++ Stmt.sexprsBehind stmts

end

def Param.sexpr (param : Param) : String :=
  param.type.text ++ " " ++ param.name

def MethodBody.sexpr (body : MethodBody) : String :=
  "(block" ++ Stmt.sexprsBehind body.stmts ++ ")"

mutual

def Item.sexpr : Item → String
  | .usingPath _ path => "(using " ++ ".".intercalate path ++ ")"
  | .namespaceOf _ path items =>
      "(namespace " ++ ".".intercalate path ++ " " ++ Item.sexprs items ++ ")"
  | .classOf _ _ name members => "(class " ++ name ++ " " ++ Item.sexprs members ++ ")"
  | .method _ _ result name params body =>
      "(method " ++ result.text ++ " " ++ name ++ " (" ++
        ", ".intercalate (params.map Param.sexpr) ++ ") " ++ body.sexpr ++ ")"
  | .field _ _ decl => "(field " ++ decl.sexpr ++ ")"
  | .statement _ stmt => stmt.sexpr
  | .error _ => "(error)"

def Item.sexprs : List Item → String
  | [] => ""
  | [only] => only.sexpr
  | first :: second :: others => first.sexpr ++ " " ++ Item.sexprs (second :: others)

end

end QueryLoop
