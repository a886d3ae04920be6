import QueryLoop.Tree.Item

namespace QueryLoop

/-! The nodes of a tree and how they nest.

An outline forgets everything about a tree but which nodes stand directly inside
which others, in the order of the source.  `preorder` lists all nodes, parents
before their parts; `around` lists the ones met on the way to a span. -/

inductive Node where
  | item (item : Item)
  | stmt (stmt : Stmt)
  | expr (expr : Expr)
deriving BEq, Repr, Inhabited

namespace Node

def span : Node → Span
  | item found => found.span
  | stmt found => found.span
  | expr found => found.span

def stmt? : Node → Option Stmt
  | stmt found => some found
  | _ => none

def expr? : Node → Option Expr
  | expr found => some found
  | _ => none

/-- A part of the source that could not be read. -/
def isError : Node → Bool
  | item (.error _) => true
  | stmt (.error _) => true
  | expr (.error _) => true
  | _ => false

end Node

inductive Outline where
  | mk (node : Node) (parts : List Outline)
deriving Repr, Inhabited

namespace Outline

def node : Outline → Node
  | mk node _ => node

def parts : Outline → List Outline
  | mk _ parts => parts

mutual

def preorder : Outline → List Node
  | mk node parts => node :: preorderAll parts

def preorderAll : List Outline → List Node
  | [] => []
  | outline :: outlines => outline.preorder ++ preorderAll outlines

end

mutual

/-- The nodes whose spans contain `target`, outermost first.  The parts of a node
that does not contain it are not looked at. -/
def around (target : Span) : Outline → List Node
  | mk node parts =>
      if node.span.contains target then node :: aroundAll target parts else []

def aroundAll (target : Span) : List Outline → List Node
  | [] => []
  | outline :: outlines => outline.around target ++ aroundAll target outlines

end

end Outline

mutual

def Expr.outline : Expr → Outline
  | .literal span value => .mk (.expr (.literal span value)) []
  | .ident span name => .mk (.expr (.ident span name)) []
  | .member span target name typeArgs =>
      .mk (.expr (.member span target name typeArgs)) [target.outline]
  | .call span callee args =>
      .mk (.expr (.call span callee args)) (callee.outline :: Expr.outlines args)
  | .index span target position =>
      .mk (.expr (.index span target position)) [target.outline, position.outline]
  | .new span type args => .mk (.expr (.new span type args)) (Expr.outlines args)
  | .unary span op operand => .mk (.expr (.unary span op operand)) [operand.outline]
  | .binary span op lhs rhs => .mk (.expr (.binary span op lhs rhs)) [lhs.outline, rhs.outline]
  | .assign span lhs rhs => .mk (.expr (.assign span lhs rhs)) [lhs.outline, rhs.outline]
  | .lambda span param body => .mk (.expr (.lambda span param body)) [body.outline]
  | .paren span inner => .mk (.expr (.paren span inner)) [inner.outline]
  | .error span => .mk (.expr (.error span)) []

def Expr.outlines : List Expr → List Outline
  | [] => []
  | expr :: exprs => expr.outline :: Expr.outlines exprs

end

/-- Only the initializers of a declaration are nodes. -/
def LocalDecl.outlines (decl : LocalDecl) : List Outline :=
  (decl.declarators.filterMap Declarator.init).map Expr.outline

mutual

def Stmt.outline : Stmt → Outline
  | .block span stmts => .mk (.stmt (.block span stmts)) (Stmt.outlines stmts)
  | .decl span declared => .mk (.stmt (.decl span declared)) declared.outlines
  | .expr span value => .mk (.stmt (.expr span value)) [value.outline]
  | .ifThen span cond body =>
      .mk (.stmt (.ifThen span cond body)) [cond.outline, body.outline]
  | .ifElse span cond body otherwise =>
      .mk (.stmt (.ifElse span cond body otherwise))
        [cond.outline, body.outline, otherwise.outline]
  | .foreach span type var varSpan seq body =>
      .mk (.stmt (.foreach span type var varSpan seq body)) [seq.outline, body.outline]
  | .whileLoop span cond body =>
      .mk (.stmt (.whileLoop span cond body)) [cond.outline, body.outline]
  | .continueLoop span => .mk (.stmt (.continueLoop span)) []
  | .breakLoop span => .mk (.stmt (.breakLoop span)) []
  | .returnValue span value =>
      .mk (.stmt (.returnValue span value)) (value.toList.map Expr.outline)
  | .empty span => .mk (.stmt (.empty span)) []
  | .error span => .mk (.stmt (.error span)) []

def Stmt.outlines : List Stmt → List Outline
  | [] => []
  | stmt :: stmts => stmt.outline :: Stmt.outlines stmts

end

mutual

def Item.outline : Item → Outline
  | .usingPath span path => .mk (.item (.usingPath span path)) []
  | .namespaceOf span path items =>
      .mk (.item (.namespaceOf span path items)) (Item.outlines items)
  | .classOf span modifiers name members =>
      .mk (.item (.classOf span modifiers name members)) (Item.outlines members)
  | .method span modifiers result name params body =>
      .mk (.item (.method span modifiers result name params body)) (Stmt.outlines body.stmts)
  | .field span modifiers decl => .mk (.item (.field span modifiers decl)) decl.outlines
  | .statement span stmt => .mk (.item (.statement span stmt)) [stmt.outline]
  | .error span => .mk (.item (.error span)) []

def Item.outlines : List Item → List Outline
  | [] => []
  | item :: items => item.outline :: Item.outlines items

end

def Expr.nodes (expr : Expr) : List Node :=
  expr.outline.preorder

def Stmt.nodes (stmt : Stmt) : List Node :=
  stmt.outline.preorder

namespace SourceTree

def nodes (tree : SourceTree) : List Node :=
  Outline.preorderAll (Item.outlines tree.items)

def nodesAround (tree : SourceTree) (target : Span) : List Node :=
  Outline.aroundAll target (Item.outlines tree.items)

end SourceTree

end QueryLoop
