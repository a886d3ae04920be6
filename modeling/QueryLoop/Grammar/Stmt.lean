import QueryLoop.Grammar.Expr
import QueryLoop.Tree.Stmt

namespace QueryLoop.Grammar

open Parsing Parser

def declarator : Parser Token Declarator := do
  let ((name, init), span) ← spanned do
    let name ← name
    let init ← Parser.optional (assigned expr)
    return (name, init)
  return ⟨name, init, span⟩

def localDecl : Parser Token LocalDecl :=
  labelled "declaration" do
    let type ← type
    let declarators ← separated1 declarator (token .comma)
    return ⟨type, declarators⟩

def braced (stmt : Parser Token Stmt) : Parser Token (List Stmt × Span) :=
  spanned (between (token .braceOpen) (token .braceClose) (many stmt))

/-- A block.  If it cannot be read, a balanced group of braces, parentheses and
brackets is skipped instead. -/
def block (stmt : Parser Token Stmt) : Parser Token Stmt :=
  recoverWith
    (do
      let span ← skipGroup .braceOpen .braceClose
        [(.parenOpen, .parenClose), (.bracketOpen, .bracketClose)]
      return .error span)
    (do
      let (stmts, span) ← braced stmt
      return .block span stmts)

def condition : Parser Token Expr :=
  between (token .parenOpen) (token .parenClose) expr

def loopHeader : Parser Token (TypeRef × (String × Span) × Expr) := do
  let type ← type
  let var ← spanned name
  token (.keyword .inWord)
  let seq ← expr
  return (type, var, seq)

def foreachLoop (stmt : Parser Token Stmt) : Parser Token Stmt :=
  labelled "foreach" do
    let (((type, (var, varSpan), seq), body), span) ← spanned do
      token (.keyword .foreachWord)
      let header ← between (token .parenOpen) (token .parenClose) loopHeader
      let body ← stmt
      return (header, body)
    return .foreach span type var varSpan seq body

def elseBranch (stmt : Parser Token Stmt) : Parser Token Stmt := do
  token (.keyword .elseWord)
  stmt

def conditional (stmt : Parser Token Stmt) : Parser Token Stmt :=
  labelled "if" do
    let ((cond, body, otherwise), span) ← spanned do
      token (.keyword .ifWord)
      let cond ← condition
      let body ← stmt
      let otherwise ← Parser.optional (elseBranch stmt)
      return (cond, body, otherwise)
    match otherwise with
    | none => return .ifThen span cond body
    | some otherwise => return .ifElse span cond body otherwise

def whileLoop (stmt : Parser Token Stmt) : Parser Token Stmt := do
  let ((cond, body), span) ← spanned do
    token (.keyword .whileWord)
    let cond ← condition
    let body ← stmt
    return (cond, body)
  return .whileLoop span cond body

def wordStmt (word : Keyword) (make : Span → Stmt) : Parser Token Stmt := do
  let (_, span) ← spanned do
    token (.keyword word)
    semicolon
  return make span

def returnStmt : Parser Token Stmt := do
  let (value, span) ← spanned do
    token (.keyword .returnWord)
    let value ← Parser.optional expr
    semicolon
    return value
  return .returnValue span value

def emptyStmt : Parser Token Stmt := do
  let (_, span) ← spanned (token .semicolon)
  return .empty span

def declStmt : Parser Token Stmt := do
  let (decl, span) ← spanned do
    let decl ← localDecl
    semicolon
    return decl
  return .decl span decl

def exprStmt : Parser Token Stmt := do
  let (value, span) ← spanned do
    let value ← expr
    semicolon
    return value
  return .expr span value

/-- Everything up to the next semicolon, which is taken along, or up to a brace. -/
def unreadable : Parser Token Stmt := do
  let (_, span) ← spanned do
    let _ ← many1 (noneOf [.semicolon, .braceOpen, .braceClose])
    Parser.optional (token .semicolon)
  report span .unrecognizedStatement
  return .error span

def stmtRule (stmt : Parser Token Stmt) : Parser Token Stmt :=
  labelled "statement"
    (block stmt <|> foreachLoop stmt <|> conditional stmt <|> whileLoop stmt <|>
      wordStmt .continueWord .continueLoop <|> wordStmt .breakWord .breakLoop <|>
      returnStmt <|> emptyStmt <|> declStmt <|> exprStmt <|> unreadable)

def stmt : Parser Token Stmt :=
  recursive stmtRule

end QueryLoop.Grammar
