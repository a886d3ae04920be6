import QueryLoop.Proofs.Binding.Names
import QueryLoop.Tree.Replace
import Mathlib.Data.List.Basic

namespace QueryLoop

namespace Outline

mutual

theorem mem_preorder_of_mem_around {target : Span} {node : Node} :
    ∀ {outline : Outline}, node ∈ outline.around target → node ∈ outline.preorder
  | .mk root parts, found => by
      rw [around] at found
      split at found
      · rw [preorder, List.mem_cons]
        exact (List.mem_cons.mp found).imp id mem_preorderAll_of_mem_aroundAll
      · simp at found

theorem mem_preorderAll_of_mem_aroundAll {target : Span} {node : Node} :
    ∀ {outlines : List Outline}, node ∈ aroundAll target outlines → node ∈ preorderAll outlines
  | [], found => by simp [aroundAll] at found
  | outline :: outlines, found => by
      rw [aroundAll, List.mem_append] at found
      rw [preorderAll, List.mem_append]
      exact found.imp mem_preorder_of_mem_around mem_preorderAll_of_mem_aroundAll

end

theorem aroundAll_eq_flatMap (target : Span) (outlines : List Outline) :
    aroundAll target outlines = outlines.flatMap (around target) := by
  induction outlines with
  | nil => rfl
  | cons outline outlines ih => rw [aroundAll, ih, List.flatMap_cons]

end Outline

namespace Expr

/-- The expressions directly inside an expression, in the order of the source. -/
def parts : Expr → List Expr
  | member _ target _ _ => [target]
  | call _ callee args => callee :: args
  | index _ target position => [target, position]
  | new _ _ args => args
  | unary _ _ inner => [inner]
  | binary _ _ lhs rhs => [lhs, rhs]
  | assign _ lhs rhs => [lhs, rhs]
  | lambda _ _ body => [body]
  | paren _ inner => [inner]
  | _ => []

theorem sizeOf_lt_of_mem_parts {expr part : Expr} (inside : part ∈ expr.parts) :
    sizeOf part < sizeOf expr := by
  cases expr with
  | call span callee args =>
      simp only [parts, List.mem_cons] at inside
      simp only [call.sizeOf_spec]
      rcases inside with rfl | inside
      · omega
      · have smaller := List.sizeOf_lt_of_mem inside
        omega
  | new span type args =>
      have smaller : sizeOf part < sizeOf args := List.sizeOf_lt_of_mem inside
      simp only [new.sizeOf_spec]
      omega
  | index | binary | assign =>
      simp only [parts, List.mem_cons, List.not_mem_nil, or_false] at inside
      rcases inside with rfl | rfl <;>
        simp only [index.sizeOf_spec, binary.sizeOf_spec, assign.sizeOf_spec] <;> omega
  | member | unary | lambda | paren =>
      obtain rfl := List.mem_singleton.mp inside
      simp only [member.sizeOf_spec, unary.sizeOf_spec, lambda.sizeOf_spec, paren.sizeOf_spec]
      omega
  | literal | ident | error => simp [parts] at inside

/-- What passes from the expressions directly inside an expression to the
expression holds of every expression. -/
theorem parts_induction {motive : Expr → Prop}
    (step : ∀ expr, (∀ part ∈ expr.parts, motive part) → motive expr) (expr : Expr) :
    motive expr :=
  step expr fun part _ => parts_induction step part
termination_by sizeOf expr
decreasing_by exact sizeOf_lt_of_mem_parts ‹_›

theorem outline_eq (expr : Expr) : expr.outline = .mk (.expr expr) (expr.parts.map outline) := by
  cases expr <;> simp [outline, parts, outlines_eq_map]

theorem stmt?_eq_none_of_mem_preorder {node : Node} {expr : Expr}
    (found : node ∈ expr.outline.preorder) : node.stmt? = none := by
  induction expr using parts_induction with
  | step expr ih =>
      rw [outline_eq, Outline.preorder, Outline.preorderAll_eq_flatMap, List.flatMap_map,
        List.mem_cons, List.mem_flatMap] at found
      rcases found with rfl | ⟨part, inside, found⟩
      · rfl
      · exact ih part inside found

theorem filterMap_stmt?_preorder (expr : Expr) :
    expr.outline.preorder.filterMap Node.stmt? = [] :=
  List.filterMap_eq_nil_iff.mpr fun _ found => stmt?_eq_none_of_mem_preorder found

theorem filterMap_stmt?_around (expr : Expr) (target : Span) :
    (expr.outline.around target).filterMap Node.stmt? = [] :=
  List.filterMap_eq_nil_iff.mpr fun _ found =>
    stmt?_eq_none_of_mem_preorder (Outline.mem_preorder_of_mem_around found)

theorem filterMap_stmt?_preorderAll (exprs : List Expr) :
    (Outline.preorderAll (exprs.map outline)).filterMap Node.stmt? = [] := by
  rw [Outline.preorderAll_eq_flatMap, List.flatMap_map, List.filterMap_flatMap,
    List.flatMap_eq_nil_iff]
  exact fun expr _ => expr.filterMap_stmt?_preorder

theorem filterMap_stmt?_aroundAll (exprs : List Expr) (target : Span) :
    (Outline.aroundAll target (exprs.map outline)).filterMap Node.stmt? = [] := by
  rw [Outline.aroundAll_eq_flatMap, List.flatMap_map, List.filterMap_flatMap,
    List.flatMap_eq_nil_iff]
  exact fun expr _ => expr.filterMap_stmt?_around target

end Expr

theorem Node.loops_eq_filterMap (nodes : List Node) :
    loops nodes = (nodes.filterMap stmt?).filterMap Stmt.loop? := by
  rw [List.filterMap_filterMap]
  rfl

namespace Stmt

/-- The statements directly inside a statement, in the order of the source. -/
def children : Stmt → List Stmt
  | block _ stmts => stmts
  | ifThen _ _ body => [body]
  | ifElse _ _ body otherwise => [body, otherwise]
  | foreach _ _ _ _ _ body => [body]
  | whileLoop _ _ body => [body]
  | _ => []

theorem sizeOf_lt_of_mem_children {stmt child : Stmt} (inside : child ∈ stmt.children) :
    sizeOf child < sizeOf stmt := by
  cases stmt with
  | block span stmts =>
      have smaller : sizeOf child < sizeOf stmts := List.sizeOf_lt_of_mem inside
      simp only [block.sizeOf_spec]
      omega
  | ifThen span cond body =>
      obtain rfl := List.mem_singleton.mp inside
      simp only [ifThen.sizeOf_spec]
      omega
  | ifElse span cond body otherwise =>
      simp only [children, List.mem_cons, List.not_mem_nil, or_false] at inside
      rcases inside with rfl | rfl <;> simp only [ifElse.sizeOf_spec] <;> omega
  | foreach span type var varSpan seq body =>
      obtain rfl := List.mem_singleton.mp inside
      simp only [foreach.sizeOf_spec]
      omega
  | whileLoop span cond body =>
      obtain rfl := List.mem_singleton.mp inside
      simp only [whileLoop.sizeOf_spec]
      omega
  | _ => simp [children] at inside

/-- What passes from the statements directly inside a statement to the statement
holds of every statement. -/
theorem children_induction {motive : Stmt → Prop}
    (step : ∀ stmt, (∀ child ∈ stmt.children, motive child) → motive stmt) (stmt : Stmt) :
    motive stmt :=
  step stmt fun child _ => children_induction step child
termination_by sizeOf stmt
decreasing_by exact sizeOf_lt_of_mem_children ‹_›

/-- A statement and all statements inside it, in the order of the source. -/
def statements (stmt : Stmt) : List Stmt :=
  stmt.nodes.filterMap Node.stmt?

/-- The statements among `statements` that are met on the way to a span. -/
def statementsAround (target : Span) (stmt : Stmt) : List Stmt :=
  (stmt.outline.around target).filterMap Node.stmt?

theorem filterMap_stmt?_preorderAll (stmts : List Stmt) :
    (Outline.preorderAll (outlines stmts)).filterMap Node.stmt? = stmts.flatMap statements := by
  rw [Outline.preorderAll_eq_flatMap, outlines_eq_map, List.flatMap_map, List.filterMap_flatMap]
  rfl

theorem filterMap_stmt?_aroundAll (target : Span) (stmts : List Stmt) :
    (Outline.aroundAll target (outlines stmts)).filterMap Node.stmt? =
      stmts.flatMap (statementsAround target) := by
  rw [Outline.aroundAll_eq_flatMap, outlines_eq_map, List.flatMap_map, List.filterMap_flatMap]
  rfl

theorem outline_eq (stmt : Stmt) : stmt.outline = .mk (.stmt stmt) stmt.outline.parts := by
  cases stmt <;> rfl

theorem statements_eq (stmt : Stmt) :
    stmt.statements = stmt :: stmt.children.flatMap statements := by
  have inside : (Outline.preorderAll stmt.outline.parts).filterMap Node.stmt? =
      stmt.children.flatMap statements := by
    cases stmt with
    | block span stmts => exact filterMap_stmt?_preorderAll stmts
    | decl span declared => exact Expr.filterMap_stmt?_preorderAll _
    | returnValue span value => exact Expr.filterMap_stmt?_preorderAll _
    | _ =>
        simp [outline, Outline.parts, Outline.preorderAll, Expr.filterMap_stmt?_preorder, children,
          statements, nodes]
  rw [statements, nodes, outline_eq, Outline.preorder, List.filterMap_cons, inside]
  rfl

theorem statementsAround_eq (target : Span) (stmt : Stmt) :
    stmt.statementsAround target =
      if stmt.span.contains target then
        stmt :: stmt.children.flatMap (statementsAround target)
      else [] := by
  have inside : (Outline.aroundAll target stmt.outline.parts).filterMap Node.stmt? =
      stmt.children.flatMap (statementsAround target) := by
    cases stmt with
    | block span stmts => exact filterMap_stmt?_aroundAll target stmts
    | decl span declared => exact Expr.filterMap_stmt?_aroundAll _ target
    | returnValue span value => exact Expr.filterMap_stmt?_aroundAll _ target
    | _ =>
        simp [outline, Outline.parts, Outline.aroundAll, Expr.filterMap_stmt?_around, children,
          statementsAround]
  rw [statementsAround, outline_eq, Outline.around, Node.span]
  split
  · rw [List.filterMap_cons, inside]
    rfl
  · rfl

theorem self_mem_statements (stmt : Stmt) : stmt ∈ stmt.statements := by
  rw [statements_eq]
  exact List.mem_cons_self

/-- Without a span around the target nothing inside is looked at. -/
theorem statementsAround_eq_nil {stmt : Stmt} {target : Span}
    (outside : stmt.span.contains target = false) : stmt.statementsAround target = [] := by
  rw [statementsAround_eq, outside]
  rfl

end Stmt

namespace Item

/-- The items directly inside an item. -/
def subitems : Item → List Item
  | namespaceOf _ _ items => items
  | classOf _ _ _ members => members
  | _ => []

/-- The statements directly inside an item. -/
def stmts : Item → List Stmt
  | method _ _ _ _ _ body => body.stmts
  | statement _ stmt => [stmt]
  | _ => []

/-- An item holds items or statements, never both. -/
theorem subitems_eq_nil_or_stmts_eq_nil (item : Item) : item.subitems = [] ∨ item.stmts = [] := by
  cases item <;> simp [subitems, stmts]

theorem sizeOf_lt_of_mem_subitems {item child : Item} (inside : child ∈ item.subitems) :
    sizeOf child < sizeOf item := by
  cases item with
  | namespaceOf span path items =>
      have smaller : sizeOf child < sizeOf items := List.sizeOf_lt_of_mem inside
      simp only [namespaceOf.sizeOf_spec]
      omega
  | classOf span modifiers name members =>
      have smaller : sizeOf child < sizeOf members := List.sizeOf_lt_of_mem inside
      simp only [classOf.sizeOf_spec]
      omega
  | _ => simp [subitems] at inside

theorem subitems_induction {motive : Item → Prop}
    (step : ∀ item, (∀ child ∈ item.subitems, motive child) → motive item) (item : Item) :
    motive item :=
  step item fun child _ => subitems_induction step child
termination_by sizeOf item
decreasing_by exact sizeOf_lt_of_mem_subitems ‹_›

theorem outlines_eq_map (items : List Item) : outlines items = items.map outline := by
  induction items with
  | nil => rfl
  | cons item items ih => rw [outlines, ih, List.map_cons]

/-- All statements inside an item, in the order of the source. -/
def statements (item : Item) : List Stmt :=
  item.outline.preorder.filterMap Node.stmt?

/-- The statements of an item that are met on the way to a span. -/
def statementsAround (target : Span) (item : Item) : List Stmt :=
  (item.outline.around target).filterMap Node.stmt?

theorem filterMap_stmt?_preorderAll (items : List Item) :
    (Outline.preorderAll (outlines items)).filterMap Node.stmt? = items.flatMap statements := by
  rw [Outline.preorderAll_eq_flatMap, outlines_eq_map, List.flatMap_map, List.filterMap_flatMap]
  rfl

theorem filterMap_stmt?_aroundAll (target : Span) (items : List Item) :
    (Outline.aroundAll target (outlines items)).filterMap Node.stmt? =
      items.flatMap (statementsAround target) := by
  rw [Outline.aroundAll_eq_flatMap, outlines_eq_map, List.flatMap_map, List.filterMap_flatMap]
  rfl

theorem outline_eq (item : Item) : item.outline = .mk (.item item) item.outline.parts := by
  cases item <;> rfl

theorem statements_eq (item : Item) :
    item.statements = item.subitems.flatMap statements ++ item.stmts.flatMap Stmt.statements := by
  have inside : (Outline.preorderAll item.outline.parts).filterMap Node.stmt? =
      item.subitems.flatMap statements ++ item.stmts.flatMap Stmt.statements := by
    cases item with
    | field span modifiers decl => exact Expr.filterMap_stmt?_preorderAll _
    | _ =>
        simp [outline, Outline.parts, Outline.preorderAll, filterMap_stmt?_preorderAll,
          Stmt.filterMap_stmt?_preorderAll, subitems, stmts, Stmt.statements, Stmt.nodes]
  rw [statements, outline_eq, Outline.preorder, List.filterMap_cons, inside]
  rfl

theorem statementsAround_eq (target : Span) (item : Item) :
    item.statementsAround target =
      if item.span.contains target then
        item.subitems.flatMap (statementsAround target) ++
          item.stmts.flatMap (Stmt.statementsAround target)
      else [] := by
  have inside : (Outline.aroundAll target item.outline.parts).filterMap Node.stmt? =
      item.subitems.flatMap (statementsAround target) ++
        item.stmts.flatMap (Stmt.statementsAround target) := by
    cases item with
    | field span modifiers decl => exact Expr.filterMap_stmt?_aroundAll _ target
    | _ =>
        simp [outline, Outline.parts, Outline.aroundAll, filterMap_stmt?_aroundAll,
          Stmt.filterMap_stmt?_aroundAll, subitems, stmts, Stmt.statementsAround]
  rw [statementsAround, outline_eq, Outline.around, Node.span]
  split
  · rw [List.filterMap_cons, inside]
    rfl
  · rfl

theorem statementsAround_eq_nil {item : Item} {target : Span}
    (outside : item.span.contains target = false) : item.statementsAround target = [] := by
  rw [statementsAround_eq, outside]
  rfl

end Item

namespace SourceTree

/-- All statements of a tree, in the order of the source. -/
def statements (tree : SourceTree) : List Stmt :=
  tree.nodes.filterMap Node.stmt?

theorem statements_eq (tree : SourceTree) :
    tree.statements = tree.items.flatMap Item.statements :=
  Item.filterMap_stmt?_preorderAll tree.items

theorem mem_statements_iff {tree : SourceTree} {stmt : Stmt} :
    stmt ∈ tree.statements ↔ .stmt stmt ∈ tree.nodes := by
  rw [statements, List.mem_filterMap]
  constructor
  · rintro ⟨node, inside, found⟩
    cases node <;> simp_all [Node.stmt?]
  · exact fun inside => ⟨.stmt stmt, inside, rfl⟩

theorem loops_eq (tree : SourceTree) : tree.loops = tree.statements.filterMap Stmt.loop? :=
  Node.loops_eq_filterMap tree.nodes

theorem filterMap_stmt?_nodesAround (tree : SourceTree) (target : Span) :
    (tree.nodesAround target).filterMap Node.stmt? =
      tree.items.flatMap (Item.statementsAround target) :=
  Item.filterMap_stmt?_aroundAll target tree.items

theorem mem_loops_iff {tree : SourceTree} {loop : Loop} :
    loop ∈ tree.loops ↔ loop.toStmt ∈ tree.statements := by
  rw [loops_eq, List.mem_filterMap]
  constructor
  · rintro ⟨stmt, inside, found⟩
    rwa [← Stmt.loop?_eq_some_iff.mp found]
  · exact fun inside => ⟨loop.toStmt, inside, rfl⟩

end SourceTree

end QueryLoop
