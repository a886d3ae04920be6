import QueryLoop.Tree.Item

namespace QueryLoop

/-! A walk over the statements of a tree that changes them in place, a statement before
what is inside it.

The visitor here numbers the local declarations from zero, in the order of the source,
and empties those it is told to.  Fields are not local.  No text is read as an empty
declaration, so this is how a tree that needs tidying is made without a plan. -/

mutual

/-- Empties the declarations whose numbers are in `cleared`.  `next` is the first
number inside the statement, and the number behind it is returned. -/
def Stmt.clearDecls (cleared : List Nat) (next : Nat) : Stmt → Stmt × Nat
  | .decl span declared =>
      (.decl span (if next ∈ cleared then { declared with declarators := [] } else declared),
        next + 1)
  | .block span stmts =>
      let (stmts, next) := Stmt.clearDeclsIn cleared next stmts
      (.block span stmts, next)
  | .ifThen span cond body =>
      let (body, next) := body.clearDecls cleared next
      (.ifThen span cond body, next)
  | .ifElse span cond body otherwise =>
      let (body, next) := body.clearDecls cleared next
      let (otherwise, next) := otherwise.clearDecls cleared next
      (.ifElse span cond body otherwise, next)
  | .foreach span type var varSpan seq body =>
      let (body, next) := body.clearDecls cleared next
      (.foreach span type var varSpan seq body, next)
  | .whileLoop span cond body =>
      let (body, next) := body.clearDecls cleared next
      (.whileLoop span cond body, next)
  | stmt => (stmt, next)

def Stmt.clearDeclsIn (cleared : List Nat) (next : Nat) : List Stmt → List Stmt × Nat
  | [] => ([], next)
  | stmt :: stmts =>
      let (stmt, next) := stmt.clearDecls cleared next
      let (stmts, next) := Stmt.clearDeclsIn cleared next stmts
      (stmt :: stmts, next)

end

mutual

def Item.clearDecls (cleared : List Nat) (next : Nat) : Item → Item × Nat
  | .namespaceOf span path items =>
      let (items, next) := Item.clearDeclsIn cleared next items
      (.namespaceOf span path items, next)
  | .classOf span modifiers name members =>
      let (members, next) := Item.clearDeclsIn cleared next members
      (.classOf span modifiers name members, next)
  | .method span modifiers result name params body =>
      let (stmts, next) := Stmt.clearDeclsIn cleared next body.stmts
      (.method span modifiers result name params { body with stmts }, next)
  | .statement span stmt =>
      let (stmt, next) := stmt.clearDecls cleared next
      (.statement span stmt, next)
  | item => (item, next)

def Item.clearDeclsIn (cleared : List Nat) (next : Nat) : List Item → List Item × Nat
  | [] => ([], next)
  | item :: items =>
      let (item, next) := item.clearDecls cleared next
      let (items, next) := Item.clearDeclsIn cleared next items
      (item :: items, next)

end

/-- The tree with the listed declarations emptied, and how many there are. -/
def SourceTree.clearDecls (tree : SourceTree) (cleared : List Nat) : SourceTree × Nat :=
  let (items, count) := Item.clearDeclsIn cleared 0 tree.items
  (⟨items⟩, count)

end QueryLoop
