import QueryLoop.Proofs.Place.Statements

namespace QueryLoop

theorem Expr.nodes_eq (expr : Expr) :
    expr.nodes = .expr expr :: expr.parts.flatMap Expr.nodes := by
  rw [nodes, outline_eq, Outline.preorder, Outline.preorderAll_eq_flatMap, List.flatMap_map]
  rfl

theorem Outline.preorderAll_append (front back : List Outline) :
    preorderAll (front ++ back) = preorderAll front ++ preorderAll back := by
  rw [preorderAll_eq_flatMap, List.flatMap_append, ← preorderAll_eq_flatMap,
    ← preorderAll_eq_flatMap]

theorem Expr.preorderAll_outlines (exprs : List Expr) :
    Outline.preorderAll (exprs.map outline) = exprs.flatMap Expr.nodes := by
  rw [Outline.preorderAll_eq_flatMap, List.flatMap_map]
  rfl

/-- The initial values in a declaration, in the order of the source. -/
def LocalDecl.inits (decl : LocalDecl) : List Expr :=
  decl.declarators.filterMap Declarator.init

namespace Stmt

/-- The expressions directly inside a statement. -/
def exprs : Stmt → List Expr
  | decl _ declared => declared.inits
  | expr _ value => [value]
  | ifThen _ cond _ => [cond]
  | ifElse _ cond _ _ => [cond]
  | foreach _ _ _ _ seq _ => [seq]
  | whileLoop _ cond _ => [cond]
  | returnValue _ value => value.toList
  | _ => []

theorem preorderAll_outlines (stmts : List Stmt) :
    Outline.preorderAll (outlines stmts) = stmts.flatMap nodes := by
  rw [Outline.preorderAll_eq_flatMap, outlines_eq_map, List.flatMap_map]
  rfl

/-- The parts of a statement are its own expressions and then the statements in it. -/
theorem parts_outline (stmt : Stmt) :
    stmt.outline.parts = stmt.exprs.map Expr.outline ++ outlines stmt.children := by
  cases stmt with
  | block span stmts => simp [outline, Outline.parts, exprs, children]
  | decl span declared =>
      simp [outline, Outline.parts, LocalDecl.outlines, exprs, children, LocalDecl.inits, outlines]
  | returnValue span value => simp [outline, Outline.parts, exprs, children, outlines]
  | _ => simp [outline, Outline.parts, exprs, children, outlines]

theorem nodes_eq (stmt : Stmt) : stmt.nodes =
    .stmt stmt :: (stmt.exprs.flatMap Expr.nodes ++ stmt.children.flatMap nodes) := by
  rw [nodes, outline_eq, Outline.preorder, parts_outline, Outline.preorderAll_append,
    Expr.preorderAll_outlines, preorderAll_outlines]

end Stmt

namespace Item

/-- The expressions directly inside an item. -/
def exprs : Item → List Expr
  | field _ _ decl => decl.inits
  | _ => []

/-- All nodes of an item, itself first. -/
def nodes (item : Item) : List Node :=
  item.outline.preorder

theorem preorderAll_outlines (items : List Item) :
    Outline.preorderAll (outlines items) = items.flatMap nodes := by
  rw [Outline.preorderAll_eq_flatMap, outlines_eq_map, List.flatMap_map]
  rfl

theorem parts_outline (item : Item) : item.outline.parts =
    item.exprs.map Expr.outline ++ (outlines item.subitems ++ Stmt.outlines item.stmts) := by
  cases item with
  | field span modifiers decl =>
      simp [outline, Outline.parts, LocalDecl.outlines, exprs, subitems, stmts, LocalDecl.inits,
        outlines, Stmt.outlines]
  | _ => simp [outline, Outline.parts, exprs, subitems, stmts, outlines, Stmt.outlines]

theorem nodes_eq (item : Item) : item.nodes = .item item ::
    (item.exprs.flatMap Expr.nodes ++
      (item.subitems.flatMap nodes ++ item.stmts.flatMap Stmt.nodes)) := by
  rw [nodes, outline_eq, Outline.preorder, parts_outline, Outline.preorderAll_append,
    Outline.preorderAll_append, Expr.preorderAll_outlines, preorderAll_outlines,
    Stmt.preorderAll_outlines]

end Item

theorem SourceTree.nodes_eq (tree : SourceTree) : tree.nodes = tree.items.flatMap Item.nodes :=
  Item.preorderAll_outlines tree.items

end QueryLoop
