import QueryLoop.Tree.Outline

namespace QueryLoop

namespace Node

/-- The identifiers among the nodes.  Names of members, types and lambda
parameters are none. -/
def identifiers (nodes : List Node) : List Expr :=
  nodes.filterMap fun
    | expr (.ident span name) => some (.ident span name)
    | _ => none

def assignTargets (nodes : List Node) : List Expr :=
  nodes.filterMap fun
    | expr (.assign _ lhs _) => some lhs
    | _ => none

def hasError (nodes : List Node) : Bool :=
  nodes.any isError

def loops (nodes : List Node) : List Loop :=
  nodes.filterMap fun node => node.stmt?.bind Stmt.loop?

def enclosingLoops (path : List Node) : List Loop :=
  loops path.reverse

def stmtAt? (nodes : List Node) (span : Span) : Option Stmt :=
  (nodes.filterMap stmt?).find? (·.span = span)

end Node

namespace Expr

def identifiers (expr : Expr) : List Expr :=
  Node.identifiers expr.nodes

def hasError (expr : Expr) : Bool :=
  Node.hasError expr.nodes

end Expr

namespace Stmt

def identifiers (stmt : Stmt) : List Expr :=
  Node.identifiers stmt.nodes

def assignTargets (stmt : Stmt) : List Expr :=
  Node.assignTargets stmt.nodes

def hasError (stmt : Stmt) : Bool :=
  Node.hasError stmt.nodes

end Stmt

namespace SourceTree

/-- Every loop in the order of the source, outer loops before the ones inside. -/
def loops (tree : SourceTree) : List Loop :=
  Node.loops tree.nodes

def countStatements (tree : SourceTree) : Nat :=
  (tree.nodes.filterMap Node.stmt?).length

end SourceTree

end QueryLoop
