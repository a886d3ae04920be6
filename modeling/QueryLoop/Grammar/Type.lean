import QueryLoop.Parsing.Recovery
import QueryLoop.Token
import QueryLoop.Tree.Expr

namespace QueryLoop.Grammar

open Parsing Parser

def name : Parser Token String :=
  labelled "identifier" (select
    (fun
      | .ident name => some name
      | _ => none)
    [.somethingElse])

def dottedName : Parser Token (List String) :=
  separated1 name (token .dot)

/-- The end of a statement.  A missing semicolon is reported, and the statement
is kept. -/
def semicolon : Parser Token Unit := do
  let (found, span) ← spanned (Parser.optional (token .semicolon))
  match found with
  | some () => return ()
  | none => report span .missingSemicolon

def typeArgs (type : Parser Token TypeRef) : Parser Token (List TypeRef) :=
  between (token (.sign .less)) (token (.sign .greater)) (separated1 type (token .comma))

def typeRule (type : Parser Token TypeRef) : Parser Token TypeRef :=
  labelled "type" do
    let ((path, args), span) ← spanned do
      let path ← dottedName
      let args ← Parser.optional (typeArgs type)
      return (path, args.getD [])
    return ⟨path, args, span⟩

def type : Parser Token TypeRef :=
  recursive typeRule

end QueryLoop.Grammar
