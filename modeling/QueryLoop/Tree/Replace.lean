import QueryLoop.Tree.Item

namespace QueryLoop

mutual

/-- Replaces the first statement, from the outside in, that spans exactly
`target`.  Statements that do not contain `target` are not looked into. -/
def Stmt.replace? (stmt : Stmt) (target : Span) (new : Stmt) : Option Stmt :=
  if stmt.span.contains target then
    if stmt.span = target then some new
    else
      match stmt with
      | .block span stmts => (Stmt.replaceFirst? stmts target new).map (.block span)
      | .ifThen span cond body => (body.replace? target new).map (.ifThen span cond)
      | .ifElse span cond body otherwise =>
          match body.replace? target new with
          | some body => some (.ifElse span cond body otherwise)
          | none => (otherwise.replace? target new).map (.ifElse span cond body)
      | .foreach span type var varSpan seq body =>
          (body.replace? target new).map (.foreach span type var varSpan seq)
      | .whileLoop span cond body => (body.replace? target new).map (.whileLoop span cond)
      | _ => none
  else none

def Stmt.replaceFirst? (stmts : List Stmt) (target : Span) (new : Stmt) : Option (List Stmt) :=
  match stmts with
  | [] => none
  | stmt :: stmts =>
      match stmt.replace? target new with
      | some replaced => some (replaced :: stmts)
      | none => (Stmt.replaceFirst? stmts target new).map (stmt :: ·)

end

mutual

def Item.replace? (item : Item) (target : Span) (new : Stmt) : Option Item :=
  if item.span.contains target then
    match item with
    | .namespaceOf span path items =>
        (Item.replaceFirst? items target new).map (.namespaceOf span path)
    | .classOf span modifiers name members =>
        (Item.replaceFirst? members target new).map (.classOf span modifiers name)
    | .method span modifiers result name params body =>
        (Stmt.replaceFirst? body.stmts target new).map fun stmts =>
          .method span modifiers result name params { body with stmts }
    | .statement span stmt => (stmt.replace? target new).map (.statement span)
    | _ => none
  else none

def Item.replaceFirst? (items : List Item) (target : Span) (new : Stmt) : Option (List Item) :=
  match items with
  | [] => none
  | item :: items =>
      match item.replace? target new with
      | some replaced => some (replaced :: items)
      | none => (Item.replaceFirst? items target new).map (item :: ·)

end

def SourceTree.replaceStmt? (tree : SourceTree) (target : Span) (new : Stmt) :
    Option SourceTree :=
  (Item.replaceFirst? tree.items target new).map SourceTree.mk

mutual

/-- Removes the declarations that declare nothing and counts them.  Inside a
block they are dropped; elsewhere a statement is required, and an empty block
takes their place. -/
def Stmt.removeEmptyDecls : Stmt → Stmt × Nat
  | .decl span ⟨_, []⟩ => (.block span [], 1)
  | .block span stmts =>
      let (stmts, removed) := Stmt.dropEmptyDecls stmts
      (.block span stmts, removed)
  | .ifThen span cond body =>
      let (body, removed) := body.removeEmptyDecls
      (.ifThen span cond body, removed)
  | .ifElse span cond body otherwise =>
      let (body, removed) := body.removeEmptyDecls
      let (otherwise, more) := otherwise.removeEmptyDecls
      (.ifElse span cond body otherwise, removed + more)
  | .foreach span type var varSpan seq body =>
      let (body, removed) := body.removeEmptyDecls
      (.foreach span type var varSpan seq body, removed)
  | .whileLoop span cond body =>
      let (body, removed) := body.removeEmptyDecls
      (.whileLoop span cond body, removed)
  | stmt => (stmt, 0)

def Stmt.dropEmptyDecls : List Stmt → List Stmt × Nat
  | [] => ([], 0)
  | stmt :: stmts =>
      let (others, more) := Stmt.dropEmptyDecls stmts
      if stmt.isEmptyDecl then (others, more + 1)
      else
        let (stmt, removed) := stmt.removeEmptyDecls
        (stmt :: others, removed + more)

end

/-- Removes empty declarations from the statements that stand directly at the
top, and counts them statement by statement. -/
def SourceTree.tidied (tree : SourceTree) : SourceTree × List Nat :=
  (⟨tree.items.map fun item =>
      match item with
      | .statement span stmt => .statement span stmt.removeEmptyDecls.1
      | item => item⟩,
    tree.topStatements.map fun stmt => stmt.removeEmptyDecls.2)

end QueryLoop
