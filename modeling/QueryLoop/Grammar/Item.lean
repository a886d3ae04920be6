import QueryLoop.Grammar.Stmt
import QueryLoop.Token.Lexer
import QueryLoop.Tree.Item

namespace QueryLoop.Grammar

open Parsing Parser

def modifier : Parser Token String :=
  select
    (fun
      | .modifier word => some word
      | _ => none)
    [.somethingElse]

/-- Items between braces.  If they cannot be read, a balanced group of braces and
parentheses is skipped, and there are none. -/
def members (item : Parser Token Item) : Parser Token (List Item) :=
  recoverWith
    (do
      let _ ← skipGroup .braceOpen .braceClose [(.parenOpen, .parenClose)]
      return [])
    (between (token .braceOpen) (token .braceClose) (many item))

def usingItem : Parser Token (Span → Item) := do
  token (.keyword .usingWord)
  let path ← dottedName
  semicolon
  return fun span => .usingPath span path

def namespaceItem (item : Parser Token Item) : Parser Token (Span → Item) := do
  token (.keyword .namespaceWord)
  let path ← dottedName
  let items ← members item
  return fun span => .namespaceOf span path items

def classItem (item : Parser Token Item) : Parser Token (Span → Item) := do
  let modifiers ← many modifier
  token (.keyword .classWord)
  let name ← name
  let items ← members item
  return fun span => .classOf span modifiers name items

def param : Parser Token Param := do
  let type ← type
  let name ← name
  return ⟨type, name⟩

/-- A method's braces.  If they cannot be read, a balanced group of braces and
parentheses is skipped, and there are no statements. -/
def methodBody : Parser Token MethodBody :=
  recoverWith
    (do
      let span ← skipGroup .braceOpen .braceClose [(.parenOpen, .parenClose)]
      return ⟨[], span⟩)
    (do
      let (stmts, span) ← braced stmt
      return ⟨stmts, span⟩)

def methodItem : Parser Token (Span → Item) :=
  labelled "method" do
    let modifiers ← many modifier
    let result ← type
    let name ← name
    let params ← between (token .parenOpen) (token .parenClose)
      (separated param (token .comma))
    let body ← methodBody
    return fun span => .method span modifiers result name params body

def fieldItem : Parser Token (Span → Item) := do
  let modifiers ← many1 modifier
  let decl ← localDecl
  semicolon
  return fun span => .field span modifiers decl

def stmtItem : Parser Token (Span → Item) := do
  let stmt ← stmt
  return fun span => .statement span stmt

def itemRule (item : Parser Token Item) : Parser Token Item := do
  let (make, span) ← spanned
    (usingItem <|> namespaceItem item <|> classItem item <|> methodItem <|> fieldItem <|>
      stmtItem)
  return make span

def item : Parser Token Item :=
  recursive itemRule

/-- A whole source text.  Where no item can be read, tokens are dropped. -/
def sourceTree : Parser Token SourceTree := do
  let items ← many (skipAndRetry item)
  return ⟨items⟩

end QueryLoop.Grammar
