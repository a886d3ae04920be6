import QueryLoop.Tree.Stmt

namespace QueryLoop

structure Param where
  type : TypeRef
  name : String
deriving BEq, Repr, Inhabited

/-- The braces of a method and the statements between them. -/
structure MethodBody where
  stmts : List Stmt
  span : Span
deriving BEq, Repr, Inhabited

inductive Item where
  | usingPath (span : Span) (path : List String)
  | namespaceOf (span : Span) (path : List String) (items : List Item)
  | classOf (span : Span) (modifiers : List String) (name : String) (members : List Item)
  | method (span : Span) (modifiers : List String) (result : TypeRef) (name : String)
      (params : List Param) (body : MethodBody)
  | field (span : Span) (modifiers : List String) (decl : LocalDecl)
  | statement (span : Span) (stmt : Stmt)
  | error (span : Span)
deriving BEq, Repr, Inhabited

namespace Item

def span : Item → Span
  | usingPath span .. => span
  | namespaceOf span .. => span
  | classOf span .. => span
  | method span .. => span
  | field span .. => span
  | statement span .. => span
  | error span => span

def isUsing : Item → Bool
  | usingPath .. => true
  | _ => false

def statement? : Item → Option Stmt
  | statement _ stmt => some stmt
  | _ => none

end Item

structure SourceTree where
  items : List Item
deriving BEq, Repr, Inhabited

namespace SourceTree

def topStatements (tree : SourceTree) : List Stmt :=
  tree.items.filterMap Item.statement?

def firstStatement? (tree : SourceTree) : Option Stmt :=
  tree.items.head?.bind Item.statement?

end SourceTree

end QueryLoop
