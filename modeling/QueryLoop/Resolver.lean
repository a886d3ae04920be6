import QueryLoop.Tree.Contents

namespace QueryLoop

structure Resolver where
  /-- The variable an expression denotes; nothing for what is no variable. -/
  identity? : Expr → Option String
  loopVariable : Loop → String
  declared : Declarator → String

namespace Resolver

/-- Variables with equal keys are the same variable. -/
def byKey (key : String → String) : Resolver where
  identity? expr := expr.name?.map key
  loopVariable loop := key loop.var
  declared declarator := key declarator.name

/-- Identifiers with the same spelling are the same variable.  Shadowing is not
told apart. -/
def textual : Resolver :=
  byKey id

def caseless : Resolver :=
  byKey fun name => String.ofList (name.toList.map Char.toLower)

def denotes (resolver : Resolver) (expr : Expr) (var : String) : Bool :=
  resolver.identity? expr = some var

def references (resolver : Resolver) (expr : Expr) (var : String) : Bool :=
  expr.identifiers.any (resolver.denotes · var)

def referencesIn (resolver : Resolver) (stmt : Stmt) (var : String) : Bool :=
  stmt.identifiers.any (resolver.denotes · var)

end Resolver

end QueryLoop
