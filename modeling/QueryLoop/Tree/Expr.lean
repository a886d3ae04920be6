import QueryLoop.Operator
import QueryLoop.Span

namespace QueryLoop

inductive Literal where
  | int (digits : String)
  | float (digits : String)
  | string (content : String)
  | bool (value : Bool)
  | null
deriving DecidableEq, Repr, Inhabited

def Literal.text : Literal → String
  | .int digits => digits
  | .float digits => digits
  | .string content => "\"" ++ content ++ "\""
  | .bool value => if value then "true" else "false"
  | .null => "null"

structure TypeRef where
  path : List String
  args : List TypeRef
  span : Span
deriving BEq, Repr, Inhabited

mutual

def TypeRef.text : TypeRef → String
  | ⟨path, [], _⟩ => ".".intercalate path
  | ⟨path, first :: others, _⟩ =>
      ".".intercalate path ++ "<" ++ first.text ++ TypeRef.restText others ++ ">"

def TypeRef.restText : List TypeRef → String
  | [] => ""
  | type :: types => ", " ++ type.text ++ TypeRef.restText types

end

inductive Expr where
  | literal (span : Span) (value : Literal)
  | ident (span : Span) (name : String)
  /-- `target.name`; type arguments only where the member is called. -/
  | member (span : Span) (target : Expr) (name : String) (typeArgs : List TypeRef)
  | call (span : Span) (callee : Expr) (args : List Expr)
  | index (span : Span) (target index : Expr)
  | new (span : Span) (type : TypeRef) (args : List Expr)
  | unary (span : Span) (op : UnaryOp) (operand : Expr)
  | binary (span : Span) (op : BinaryOp) (lhs rhs : Expr)
  | assign (span : Span) (lhs rhs : Expr)
  | lambda (span : Span) (param : String) (body : Expr)
  /-- Parentheses are kept, so that a tree is printed as it was grouped. -/
  | paren (span : Span) (inner : Expr)
  | error (span : Span)
deriving BEq, Repr, Inhabited

namespace Expr

def span : Expr → Span
  | literal span .. => span
  | ident span .. => span
  | member span .. => span
  | call span .. => span
  | index span .. => span
  | new span .. => span
  | unary span .. => span
  | binary span .. => span
  | assign span .. => span
  | lambda span .. => span
  | paren span .. => span
  | error span => span

def name? : Expr → Option String
  | ident _ name => some name
  | _ => none

/-- Expressions that stand as an operand without parentheses. -/
def isPrimary : Expr → Bool
  | literal .. | ident .. | member .. | call .. | index .. | new .. | paren .. => true
  | unary .. | binary .. | assign .. | lambda .. | error .. => false

mutual

/-- Rebuilds an expression from the root down.  A node that `replace` maps to
something is exchanged for it as a whole; all others keep their own parts and get
rebuilt operands. -/
def rebuild (replace : Expr → Option Expr) (expr : Expr) : Expr :=
  match replace expr with
  | some replaced => replaced
  | none =>
      match expr with
      | literal span value => literal span value
      | ident span name => ident span name
      | member span target name typeArgs => member span (target.rebuild replace) name typeArgs
      | call span callee args => call span (callee.rebuild replace) (rebuildAll replace args)
      | index span target position =>
          index span (target.rebuild replace) (position.rebuild replace)
      | new span type args => new span type (rebuildAll replace args)
      | unary span op operand => unary span op (operand.rebuild replace)
      | binary span op lhs rhs => binary span op (lhs.rebuild replace) (rhs.rebuild replace)
      | assign span lhs rhs => assign span (lhs.rebuild replace) (rhs.rebuild replace)
      | lambda span param body => lambda span param (body.rebuild replace)
      | paren span inner => paren span (inner.rebuild replace)
      | error span => error span

def rebuildAll (replace : Expr → Option Expr) : List Expr → List Expr
  | [] => []
  | expr :: exprs => expr.rebuild replace :: rebuildAll replace exprs

end

end Expr

end QueryLoop
