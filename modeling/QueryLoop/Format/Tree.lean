import QueryLoop.Layout.Doc
import QueryLoop.Tree.Item

namespace QueryLoop

open Layout Doc

structure Format where
  width : Nat := 80
  indentSize : Nat := 4
deriving DecidableEq, Repr, Inhabited

/-- The blanks of one level.  Sizes that no signed 64-bit count can hold mean none. -/
def Format.step (format : Format) : Nat :=
  if format.indentSize < 0x8000000000000000 then format.indentSize else 0

/-- Documents in parentheses: all on one line, or one to a line and indented. -/
def argumentList (format : Format) : List Doc → Doc
  | [] => text "()"
  | docs =>
      group (enclose "(" ")"
        (nest format.step (line "" ++ intersperse (text "," ++ line " ") (docs.map group)) ++
          line ""))

def typeArgsDoc : List TypeRef → Doc
  | [] => nil
  | types => enclose "<" ">" (intersperse (text ", ") (types.map fun type => text type.text))

mutual

def Expr.doc (format : Format) : Expr → Doc
  | .literal _ value => text value.text
  | .ident _ name => text name
  | .member _ target name typeArgs =>
      target.doc format ++ text "." ++ text name ++ typeArgsDoc typeArgs
  | .call _ callee args => callee.doc format ++ argumentList format (Expr.docs format args)
  | .index _ target position => target.doc format ++ enclose "[" "]" (position.doc format)
  | .new _ type args =>
      text "new " ++ text type.text ++ argumentList format (Expr.docs format args)
  | .unary _ op operand => text op.text ++ operand.doc format
  | .binary _ op lhs rhs =>
      group (lhs.doc format ++ text " " ++ text op.text ++ line " " ++ rhs.doc format)
  | .assign _ lhs rhs => lhs.doc format ++ text " = " ++ rhs.doc format
  | .lambda _ param body => text param ++ text " => " ++ body.doc format
  | .paren _ inner => enclose "(" ")" (inner.doc format)
  | .error _ => text "/* error */"

def Expr.docs (format : Format) : List Expr → List Doc
  | [] => []
  | expr :: exprs => expr.doc format :: Expr.docs format exprs

end

def Declarator.doc (format : Format) (declarator : Declarator) : Doc :=
  match declarator.init with
  | none => text declarator.name
  | some init =>
      text declarator.name ++ group (nest format.step (text " =" ++ line " " ++ init.doc format))

/-- A declaration without declarators is written as an empty statement. -/
def LocalDecl.doc (format : Format) (decl : LocalDecl) : Doc :=
  match decl.declarators with
  | [] => text ";"
  | declarators =>
      text decl.type.text ++ text " " ++
        intersperse (text ", ") (declarators.map (Declarator.doc format)) ++ text ";"

def headerDoc (keyword : String) (inner : Doc) : Doc :=
  text keyword ++ enclose " (" ")" (group inner)

def bracesDoc (format : Format) (lines : List Doc) : Doc :=
  text "\x7b" ++ nest format.step (concat (lines.map (hardline ++ ·))) ++ hardline ++
    text "\x7d"

/-- The body of a loop or a branch: a block starts on the next line, any other
statement is indented there. -/
def embeddedDoc (format : Format) (isBlock : Bool) (body : Doc) : Doc :=
  if isBlock then hardline ++ body else nest format.step (hardline ++ body)

def Stmt.isBlock : Stmt → Bool
  | .block .. => true
  | _ => false

def Stmt.isConditional : Stmt → Bool
  | .ifThen .. => true
  | .ifElse .. => true
  | _ => false

/-- What follows `else`; chains of conditions stay flat. -/
def elseDoc (format : Format) (otherwise : Stmt) (doc : Doc) : Doc :=
  hardline ++ text "else" ++
    if otherwise.isConditional then text " " ++ doc
    else embeddedDoc format otherwise.isBlock doc

mutual

def Stmt.doc (format : Format) : Stmt → Doc
  | .block _ stmts => bracesDoc format (Stmt.docs format stmts)
  | .decl _ declared => declared.doc format
  | .expr _ value => value.doc format ++ text ";"
  | .ifThen _ cond body =>
      headerDoc "if" (cond.doc format) ++ embeddedDoc format body.isBlock (body.doc format)
  | .ifElse _ cond body otherwise =>
      headerDoc "if" (cond.doc format) ++ embeddedDoc format body.isBlock (body.doc format) ++
        elseDoc format otherwise (otherwise.doc format)
  | .foreach _ type var _ seq body =>
      headerDoc "foreach"
          (text type.text ++ text " " ++ text var ++ text " in " ++ seq.doc format) ++
        embeddedDoc format body.isBlock (body.doc format)
  | .whileLoop _ cond body =>
      headerDoc "while" (cond.doc format) ++ embeddedDoc format body.isBlock (body.doc format)
  | .continueLoop _ => text "continue;"
  | .breakLoop _ => text "break;"
  | .returnValue _ none => text "return;"
  | .returnValue _ (some value) => text "return " ++ value.doc format ++ text ";"
  | .empty _ => text ";"
  | .error _ => text "/* error */"

def Stmt.docs (format : Format) : List Stmt → List Doc
  | [] => []
  | stmt :: stmts => stmt.doc format :: Stmt.docs format stmts

end

def modifiersDoc (modifiers : List String) : Doc :=
  concat (modifiers.map fun word => text word ++ text " ")

def dottedDoc (path : List String) : Doc :=
  intersperse (text ".") (path.map text)

def Param.doc (param : Param) : Doc :=
  text param.type.text ++ text " " ++ text param.name

mutual

def Item.doc (format : Format) : Item → Doc
  | .usingPath _ path => text "using " ++ dottedDoc path ++ text ";"
  | .namespaceOf _ path items =>
      text "namespace " ++ dottedDoc path ++ hardline ++
        bracesDoc format (Item.docs format items)
  | .classOf _ modifiers name members =>
      modifiersDoc modifiers ++ text "class " ++ text name ++ hardline ++
        bracesDoc format (Item.docs format members)
  | .method _ modifiers result name params body =>
      modifiersDoc modifiers ++ text result.text ++ text " " ++ text name ++
        enclose "(" ")" (intersperse (text ", ") (params.map Param.doc)) ++ hardline ++
        bracesDoc format (Stmt.docs format body.stmts)
  | .field _ modifiers decl => modifiersDoc modifiers ++ decl.doc format
  | .statement _ stmt => stmt.doc format
  | .error _ => text "/* error */"

def Item.docs (format : Format) : List Item → List Doc
  | [] => []
  | item :: items => item.doc format :: Item.docs format items

end

/-- What stands between two items: a line end, and an empty line behind the last
`using`. -/
def itemSeparator (previous next : Item) : Doc :=
  if previous.isUsing && !next.isUsing then hardline ++ hardline else hardline

def followingItems (format : Format) (previous : Item) : List Item → Doc
  | [] => nil
  | item :: items =>
      itemSeparator previous item ++ item.doc format ++ followingItems format item items

def SourceTree.doc (format : Format) (tree : SourceTree) : Doc :=
  match tree.items with
  | [] => nil
  | item :: items => item.doc format ++ followingItems format item items

def Stmt.render (stmt : Stmt) (format : Format) : String :=
  (stmt.doc format).render format.width

def SourceTree.render (tree : SourceTree) (format : Format) : String :=
  (tree.doc format).render format.width

end QueryLoop
