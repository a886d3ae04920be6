import QueryLoop.Proofs.Place.Lookup
import QueryLoop.Proofs.Place.Nodes

namespace QueryLoop

namespace Node

/-- The places of the errors among the nodes. -/
def errorSpans (nodes : List Node) : List Span :=
  (nodes.filter isError).map span

theorem mem_errorSpans {nodes : List Node} {mark : Span} :
    mark ∈ errorSpans nodes ↔ ∃ node ∈ nodes, node.isError = true ∧ node.span = mark := by
  simp only [errorSpans, List.mem_map, List.mem_filter, and_assoc]

end Node

namespace Expr

/-- The places of the errors in an expression. -/
def errorSpans (expr : Expr) : List Span :=
  Node.errorSpans expr.nodes

theorem exists_of_mem_nodes {expr : Expr} {node : Node} (inside : node ∈ expr.nodes) :
    ∃ found : Expr, node = .expr found := by
  induction expr using parts_induction with
  | step expr ih =>
      rw [nodes_eq, List.mem_cons, List.mem_flatMap] at inside
      rcases inside with rfl | ⟨part, isPart, inside⟩
      · exact ⟨expr, rfl⟩
      · exact ih part isPart inside

end Expr

/-- The places of the errors in the expressions directly inside a statement. -/
def Stmt.frontErrors (stmt : Stmt) : List Span :=
  stmt.exprs.flatMap Expr.errorSpans

/-- The places of the errors in the expressions directly inside an item. -/
def Item.frontErrors (item : Item) : List Span :=
  item.exprs.flatMap Expr.errorSpans

/-- What was skipped in the expressions of a node lies inside the node, in front of the
statements inside it. -/
def Node.ErrorsInFront : Node → Prop
  | stmt found => ∀ mark ∈ found.frontErrors, mark.Within found.span.start found.span.stop ∧
      ∀ child ∈ found.children, mark.stop ≤ child.span.start
  | item found => ∀ mark ∈ found.frontErrors, mark.Within found.span.start found.span.stop
  | expr _ => True

namespace Outline

/-- An error in one of the first parts of a node lies inside the node, in front of the
parts that come after them. -/
theorem Nested.error_inFront {outline : Outline} {exprs : List Expr} {others : List Outline}
    {mark : Span} (nested : outline.Nested)
    (parts_eq : outline.parts = exprs.map Expr.outline ++ others)
    (marked : mark ∈ exprs.flatMap Expr.errorSpans) :
    mark.Within outline.span.start outline.span.stop ∧
      ∀ other ∈ others, mark.stop ≤ other.span.start := by
  obtain ⟨expr, isExpr, marked⟩ := List.mem_flatMap.mp marked
  obtain ⟨error, inside, -, rfl⟩ := Node.mem_errorSpans.mp marked
  have isPart : expr.outline ∈ exprs.map Expr.outline := List.mem_map_of_mem isExpr
  have line := nested.inLine
  rw [parts_eq] at line
  refine ⟨nested.within_of_mem ?_, fun other isOther => ?_⟩
  · rw [parts_eq, preorderAll_eq_flatMap]
    exact List.mem_flatMap.mpr ⟨expr.outline, List.mem_append_left _ isPart, inside⟩
  · have ahead : expr.outline.span.stop ≤ other.span.start :=
      (List.pairwise_append.mp line.spread.pairwise).2.2 _ isPart other isOther
    have exprNested := line.nested _ (List.mem_append_left _ isPart)
    exact Nat.le_trans (Span.contains_iff.mp (exprNested.contains_of_mem inside)).2 ahead

theorem Nested.errorsInFront {node : Node} (nested : node.outline.Nested) :
    node.ErrorsInFront := by
  cases node with
  | expr found => trivial
  | item found =>
      intro mark marked
      rw [← Grammar.span_outline_item found]
      exact (nested.error_inFront found.parts_outline marked).1
  | stmt found =>
      intro mark marked
      have inFront := nested.error_inFront found.parts_outline marked
      rw [← Grammar.span_outline_stmt found]
      refine ⟨inFront.1, fun child isChild => ?_⟩
      rw [← Grammar.span_outline_stmt child]
      apply inFront.2
      rw [Stmt.outlines_eq_map]
      exact List.mem_map_of_mem isChild

end Outline

/-- Whatever a source text looks like, what was skipped in the expressions of a statement
lies inside the statement, in front of the statements inside it. -/
theorem SourceTree.errorsInFront_parse (source : String) :
    ∀ node ∈ (SourceTree.parse source).1.nodes, node.ErrorsInFront := by
  intro node inside
  rw [nodes, Outline.preorderAll_eq_flatMap, List.mem_flatMap] at inside
  obtain ⟨outline, listed, inside⟩ := inside
  have nested := (nested_parse source).nested outline listed
  exact (nested.nested_of_mem (Outline.ofNode_of_item _ outline listed) inside).errorsInFront

end QueryLoop
