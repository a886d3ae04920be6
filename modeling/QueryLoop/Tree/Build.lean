import QueryLoop.Tree.Expr

namespace QueryLoop.Expr

/-- The expression as an operand: in parentheses unless it is primary. -/
def operand (expr : Expr) : Expr :=
  if expr.isPrimary then expr else .paren expr.span expr

def memberCall (target : Expr) (name : String) (args : List Expr) : Expr :=
  .call target.span (.member target.span target.operand name []) args

def abstracted (param : String) (body : Expr) : Expr :=
  .lambda body.span param body

/-- The negation of an expression.  Negations do not stack: `!e` loses its sign,
and the parentheses under it, instead of getting a second one. -/
def negated : Expr → Expr
  | .unary _ .not (.paren _ inner) => inner
  | .unary _ .not inner => inner
  | expr => .unary expr.span .not expr.operand

/-- `new` in place of every identifier `name`.  The parameter of a lambda is no
identifier and stays. -/
def replaceName (expr : Expr) (name : String) (new : Expr) : Expr :=
  expr.rebuild fun
    | .ident _ found => if found = name then some new else none
    | _ => none

end QueryLoop.Expr
