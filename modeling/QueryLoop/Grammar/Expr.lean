import QueryLoop.Grammar.Type

namespace QueryLoop.Grammar

open Parsing Parser

def literalOf? : Token → Option Literal
  | .int digits => some (.int digits)
  | .float digits => some (.float digits)
  | .string content => some (.string content)
  | .keyword .trueWord => some (.bool true)
  | .keyword .falseWord => some (.bool false)
  | .keyword .nullWord => some .null
  | _ => none

def literal : Parser Token Expr :=
  labelled "literal" do
    let (value, span) ← spanned (select literalOf? [.somethingElse])
    return .literal span value

def arguments (expr : Parser Token Expr) : Parser Token (List Expr) :=
  labelled "arguments"
    (between (token .parenOpen) (token .parenClose) (separated expr (token .comma)))

def lambda (expr : Parser Token Expr) : Parser Token Expr :=
  labelled "lambda" do
    let ((param, body), span) ← spanned do
      let param ← name
      token .arrow
      let body ← expr
      return (param, body)
    return .lambda span param body

def newObject (expr : Parser Token Expr) : Parser Token Expr := do
  let ((type, args), span) ← spanned do
    token (.keyword .newWord)
    let type ← type
    let args ← arguments expr
    return (type, args)
  return .new span type args

def ident : Parser Token Expr := do
  let (name, span) ← spanned name
  return .ident span name

/-- A parenthesized expression.  If it cannot be read, a balanced group of
parentheses and brackets is skipped instead. -/
def paren (expr : Parser Token Expr) : Parser Token Expr :=
  recoverWith
    (do
      let span ← skipGroup .parenOpen .parenClose [(.bracketOpen, .bracketClose)]
      return .error span)
    (do
      let (inner, span) ← spanned (between (token .parenOpen) (token .parenClose) expr)
      return .paren span inner)

def atom (expr : Parser Token Expr) : Parser Token Expr :=
  literal <|> lambda expr <|> newObject expr <|> ident <|> paren expr

inductive Suffix where
  | member (name : String) (typeArgs : List TypeRef)
  | call (args : List Expr)
  | index (position : Expr)

def Suffix.attach (target : Expr) (suffix : Suffix × Span) : Expr :=
  let span := target.span.through suffix.2
  match suffix.1 with
  | .member name typeArgs => .member span target name typeArgs
  | .call args => .call span target args
  | .index position => .index span target position

/-- Type arguments belong to a member only if it is called; otherwise `<` compares. -/
def memberTypeArgs : Parser Token (List TypeRef) := do
  let types ← typeArgs type
  ahead (token .parenOpen)
  return types

def memberSuffix : Parser Token Suffix := do
  token .dot
  let name ← name
  let typeArgs ← Parser.optional memberTypeArgs
  return .member name (typeArgs.getD [])

def callSuffix (expr : Parser Token Expr) : Parser Token Suffix := do
  let args ← arguments expr
  return .call args

def indexSuffix (expr : Parser Token Expr) : Parser Token Suffix := do
  let position ← between (token .bracketOpen) (token .bracketClose) expr
  return .index position

def postfixed (expr : Parser Token Expr) : Parser Token Expr := do
  let target ← atom expr
  let suffixes ← many
    (spanned memberSuffix <|> spanned (callSuffix expr) <|> spanned (indexSuffix expr))
  return suffixes.foldl Suffix.attach target

def unarySign : Parser Token UnaryOp :=
  select
    (fun
      | .sign sign => UnaryOp.ofSign? sign
      | _ => none)
    [.somethingElse]

def unary (expr : Parser Token Expr) : Parser Token Expr := do
  let signs ← many (spanned unarySign)
  let operand ← postfixed expr
  return signs.foldr
    (fun (op, span) operand => .unary (span.through operand.span) op operand) operand

def binarySign (level : BinaryLevel) (expected : Expected Token) : Parser Token BinaryOp :=
  select
    (fun
      | .sign sign => BinaryOp.ofSignAt? level sign
      | _ => none)
    [expected]

/-- Operands with the operators of one level between them, grouped from the left. -/
def leftAssociative (operand : Parser Token Expr) (sign : Parser Token BinaryOp) :
    Parser Token Expr := do
  let first ← operand
  let others ← many do
    let op ← sign
    let rhs ← operand
    return (op, rhs)
  return others.foldl
    (fun lhs (op, rhs) => .binary (lhs.span.through rhs.span) op lhs rhs) first

def product (expr : Parser Token Expr) : Parser Token Expr :=
  leftAssociative (unary expr) (binarySign .multiplicative .somethingElse)

def sum (expr : Parser Token Expr) : Parser Token Expr :=
  leftAssociative (product expr) (binarySign .additive .somethingElse)

def comparison (expr : Parser Token Expr) : Parser Token Expr :=
  leftAssociative (sum expr) (binarySign .relational .somethingElse)

def equality (expr : Parser Token Expr) : Parser Token Expr :=
  leftAssociative (comparison expr) (binarySign .equality .somethingElse)

def conjunction (expr : Parser Token Expr) : Parser Token Expr :=
  leftAssociative (equality expr) (binarySign .and (.token (.sign .and)))

def disjunction (expr : Parser Token Expr) : Parser Token Expr :=
  leftAssociative (conjunction expr) (binarySign .or (.token (.sign .or)))

def assigned (expr : Parser Token Expr) : Parser Token Expr := do
  token .assign
  expr

def exprRule (expr : Parser Token Expr) : Parser Token Expr :=
  labelled "expression" do
    let lhs ← disjunction expr
    match ← Parser.optional (assigned expr) with
    | none => return lhs
    | some rhs => return .assign (lhs.span.through rhs.span) lhs rhs

def expr : Parser Token Expr :=
  recursive exprRule

end QueryLoop.Grammar
