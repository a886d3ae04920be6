import QueryLoop.Proofs.Place.Arranged
import QueryLoop.Tree.Contents
import Mathlib.Data.List.Chain

namespace QueryLoop

namespace Outline

def span (outline : Outline) : Span :=
  outline.node.span

/-- The parts lie in the span of the node, one behind the other, all the way down. -/
inductive Nested : Outline → Prop
  | mk {node : Node} {parts : List Outline}
      (spread : Spread span node.span.start node.span.stop parts)
      (inside : ∀ part ∈ parts, part.Nested) : Nested (.mk node parts)

/-- Outlines that lie between two offsets, one behind the other, and are nested. -/
structure InLine (lower upper : Nat) (outlines : List Outline) : Prop where
  spread : Spread span lower upper outlines
  nested : ∀ outline ∈ outlines, outline.Nested

variable {outline : Outline} {outlines : List Outline} {target : Span} {lower upper : Nat}

theorem preorder_eq (outline : Outline) :
    outline.preorder = outline.node :: preorderAll outline.parts := by
  cases outline
  rfl

theorem Nested.inLine (nested : outline.Nested) :
    InLine outline.span.start outline.span.stop outline.parts := by
  cases nested with
  | mk spread inside => exact ⟨spread, inside⟩

/-- All nodes inside a node lie in its span. -/
theorem Nested.within_of_mem {node : Node} (nested : outline.Nested)
    (inside : node ∈ preorderAll outline.parts) :
    node.span.Within outline.span.start outline.span.stop := by
  induction nested with
  | @mk root parts spread _ ih =>
      rw [preorderAll_eq_flatMap, List.mem_flatMap] at inside
      obtain ⟨part, isPart, inside⟩ := inside
      have within := spread.within_of_mem isPart
      rw [preorder_eq, List.mem_cons] at inside
      cases inside with
      | inl same =>
          rw [same]
          exact within
      | inr deeper => exact (ih part isPart deeper).widen within.1 within.2.2

theorem Nested.contains_of_mem {node : Node} (nested : outline.Nested)
    (inside : node ∈ outline.preorder) : outline.span.contains node.span = true := by
  rw [preorder_eq, List.mem_cons] at inside
  cases inside with
  | inl same =>
      rw [same]
      exact Span.contains_refl _
  | inr deeper => exact (nested.within_of_mem deeper).contains

/-- Nothing inside a node that does not contain the target contains it. -/
theorem Nested.filter_eq_nil (nested : outline.Nested)
    (outside : outline.span.contains target = false) :
    outline.preorder.filter (·.span.contains target) = [] := by
  rw [List.filter_eq_nil_iff]
  intro node inside contained
  have whole := Span.contains_trans (nested.contains_of_mem inside) contained
  rw [outside] at whole
  exact Bool.noConfusion whole

theorem aroundAll_eq_filter_of_each (found : ∀ outline ∈ outlines,
      outline.around target = outline.preorder.filter (·.span.contains target)) :
    aroundAll target outlines = (preorderAll outlines).filter (·.span.contains target) := by
  rw [aroundAll_eq_flatMap, preorderAll_eq_flatMap, List.filter_flatMap]
  exact List.flatMap_congr found

/-- The search that leaves nodes out finds what a look at every node finds. -/
theorem Nested.around_eq_filter (nested : outline.Nested) :
    outline.around target = outline.preorder.filter (·.span.contains target) := by
  induction nested with
  | @mk root parts spread inside ih =>
      cases contained : root.span.contains target with
      | true =>
          rw [around, if_pos contained, preorder, List.filter_cons, if_pos contained,
            aroundAll_eq_filter_of_each ih]
      | false =>
          rw [around, contained, Nested.filter_eq_nil (.mk spread inside) contained]
          rfl

theorem InLine.aroundAll_eq_filter (line : InLine lower upper outlines) :
    aroundAll target outlines = (preorderAll outlines).filter (·.span.contains target) :=
  aroundAll_eq_filter_of_each fun outline listed => (line.nested outline listed).around_eq_filter

/-- At most one of the outlines in a line is around a target that is not empty. -/
theorem InLine.aroundAll_eq (line : InLine lower upper outlines)
    (nonempty : target.start < target.stop) :
    aroundAll target outlines = [] ∨
      ∃ outline ∈ outlines, outline.span.contains target = true ∧
        aroundAll target outlines = outline.around target := by
  rw [aroundAll_eq_flatMap]
  have skips : ∀ other ∈ outlines, other.span.contains target = false →
      other.around target = [] := by
    intro other listed outside
    rw [(line.nested other listed).around_eq_filter,
      (line.nested other listed).filter_eq_nil outside]
  by_cases found : ∃ outline ∈ outlines, outline.span.contains target = true
  · obtain ⟨outline, listed, contained⟩ := found
    have bounds := Span.contains_iff.mp contained
    have within : target.Within outline.span.start outline.span.stop :=
      ⟨bounds.1, nonempty, bounds.2⟩
    exact .inr ⟨outline, listed, contained, line.spread.flatMap_eq listed within skips⟩
  · apply Or.inl
    rw [List.flatMap_eq_nil_iff]
    intro other listed
    exact skips other listed (Bool.eq_false_iff.mpr fun contained =>
      found ⟨other, listed, contained⟩)

end Outline

namespace Node

def outline : Node → Outline
  | item found => found.outline
  | stmt found => found.outline
  | expr found => found.outline

/-- The nodes directly inside a node. -/
def parts (node : Node) : List Node :=
  node.outline.parts.map Outline.node

/-- All nodes inside a node, the node itself apart. -/
def descendants (node : Node) : List Node :=
  Outline.preorderAll node.outline.parts

theorem outline_eq (node : Node) : node.outline = .mk node node.outline.parts := by
  cases node with
  | item found => exact Item.outline_eq found
  | stmt found => exact Stmt.outline_eq found
  | expr found =>
      rw [outline, Expr.outline_eq]
      rfl

theorem node_outline (node : Node) : node.outline.node = node := by
  rw [outline_eq, Outline.node]

end Node

namespace Outline

/-- The outline of the node it has at the top. -/
def OfNode (outline : Outline) : Prop :=
  outline.node.outline = outline

theorem ofNode_of_node (node : Node) : node.outline.OfNode :=
  congrArg Node.outline node.node_outline

theorem ofNode_of_expr (exprs : List Expr) : ∀ part ∈ exprs.map Expr.outline, part.OfNode :=
  List.forall_mem_map.mpr fun expr _ => ofNode_of_node (.expr expr)

theorem ofNode_of_stmt (stmts : List Stmt) : ∀ part ∈ Stmt.outlines stmts, part.OfNode := by
  rw [Stmt.outlines_eq_map]
  exact List.forall_mem_map.mpr fun stmt _ => ofNode_of_node (.stmt stmt)

theorem ofNode_of_item (items : List Item) : ∀ part ∈ Item.outlines items, part.OfNode := by
  rw [Item.outlines_eq_map]
  exact List.forall_mem_map.mpr fun item _ => ofNode_of_node (.item item)

/-- What is inside the outline of a node are the outlines of the nodes inside. -/
theorem ofNode_of_part (node : Node) : ∀ part ∈ node.outline.parts, part.OfNode := by
  cases node with
  | expr found =>
      rw [Node.outline, Expr.outline_eq, parts]
      exact ofNode_of_expr _
  | stmt found =>
      cases found with
      | block span stmts => exact ofNode_of_stmt _
      | decl span declared => exact ofNode_of_expr _
      | expr span value => exact ofNode_of_expr [value]
      | returnValue span value => exact ofNode_of_expr _
      | ifThen span cond body =>
          exact List.forall_mem_cons.mpr ⟨ofNode_of_node (.expr cond),
            ofNode_of_stmt [body]⟩
      | ifElse span cond body otherwise =>
          exact List.forall_mem_cons.mpr ⟨ofNode_of_node (.expr cond),
            ofNode_of_stmt [body, otherwise]⟩
      | foreach span type var varSpan seq body =>
          exact List.forall_mem_cons.mpr ⟨ofNode_of_node (.expr seq),
            ofNode_of_stmt [body]⟩
      | whileLoop span cond body =>
          exact List.forall_mem_cons.mpr ⟨ofNode_of_node (.expr cond),
            ofNode_of_stmt [body]⟩
      | _ => exact ofNode_of_expr []
  | item found =>
      cases found with
      | namespaceOf span path items => exact ofNode_of_item _
      | classOf span modifiers name members => exact ofNode_of_item _
      | method span modifiers result name params body => exact ofNode_of_stmt _
      | field span modifiers decl => exact ofNode_of_expr _
      | statement span stmt => exact ofNode_of_stmt [stmt]
      | _ => exact ofNode_of_expr []

/-- Every node inside a nested outline is itself the top of one. -/
theorem Nested.nested_of_mem {outline : Outline} {node : Node} (nested : outline.Nested)
    (ofNode : outline.OfNode) (inside : node ∈ outline.preorder) : node.outline.Nested := by
  induction nested with
  | @mk root parts spread nested ih =>
      have parts_eq : root.outline.parts = parts := congrArg Outline.parts ofNode
      rw [preorder, List.mem_cons, preorderAll_eq_flatMap, List.mem_flatMap] at inside
      cases inside with
      | inl same =>
          rw [same, Node.outline_eq, parts_eq]
          exact .mk spread nested
      | inr deeper =>
          obtain ⟨part, isPart, deeper⟩ := deeper
          exact ih part isPart (ofNode_of_part root part (parts_eq ▸ isPart)) deeper

variable {outline : Outline} {outlines : List Outline} {target : Span} {lower upper : Nat}

/-- The path leads from each node to one of its parts. -/
def Descends (path : List Node) : Prop :=
  path.IsChain fun outer inner => inner ∈ outer.parts

theorem head?_around {node : Node} (met : node ∈ (outline.around target).head?) :
    node = outline.node := by
  cases outline with
  | mk root parts =>
      rw [around] at met
      split at met
      next => simpa [Outline.node] using met.symm
      next => simp at met

theorem Nested.descends (nested : outline.Nested) (ofNode : outline.OfNode)
    (nonempty : target.start < target.stop) : Descends (outline.around target) := by
  induction nested with
  | @mk root parts spread inside ih =>
      rw [around]
      split
      next =>
        have parts_eq : root.outline.parts = parts := congrArg Outline.parts ofNode
        have listed : ∀ part ∈ parts, part.OfNode := by
          rw [← parts_eq]
          exact ofNode_of_part root
        cases InLine.aroundAll_eq ⟨spread, inside⟩ nonempty with
        | inl none =>
            rw [none]
            exact .singleton root
        | inr only =>
            obtain ⟨part, isPart, -, only⟩ := only
            rw [only]
            refine List.isChain_cons.mpr ⟨fun node met => ?_, ih part isPart (listed part isPart)⟩
            rw [head?_around met, Node.parts, parts_eq]
            exact List.mem_map_of_mem isPart
      next => exact .nil

theorem mem_descendants_of_mem_parts {outer inner : Node} (isPart : inner ∈ outer.parts) :
    inner ∈ outer.descendants ∧ ∀ node ∈ inner.descendants, node ∈ outer.descendants := by
  obtain ⟨part, listed, rfl⟩ := List.mem_map.mp isPart
  have inside : ∀ node ∈ part.preorder, node ∈ outer.descendants := by
    intro node inside
    rw [Node.descendants, preorderAll_eq_flatMap]
    exact List.mem_flatMap.mpr ⟨part, listed, inside⟩
  have same : part.node.outline = part := ofNode_of_part outer part listed
  have descendants_eq : part.node.descendants = preorderAll part.parts := by
    rw [Node.descendants, same]
  rw [preorder_eq, ← descendants_eq] at inside
  exact List.forall_mem_cons.mp inside

/-- Every node on the path is inside all nodes before it. -/
theorem Descends.pairwise {path : List Node} (descends : Descends path) :
    path.Pairwise fun outer inner => inner ∈ outer.descendants := by
  induction path with
  | nil => exact .nil
  | cons outer path ih =>
      obtain ⟨first, following⟩ := List.isChain_cons.mp descends
      have later := ih following
      refine List.pairwise_cons.mpr ⟨?_, later⟩
      cases path with
      | nil => simp
      | cons inner path =>
          obtain ⟨isInside, deeper⟩ := mem_descendants_of_mem_parts (first inner rfl)
          refine List.forall_mem_cons.mpr ⟨isInside, fun node met => ?_⟩
          exact deeper node ((List.pairwise_cons.mp later).1 node met)

end Outline

theorem Node.loop?_eq_some_iff {node : Node} {loop : Loop} :
    node.stmt?.bind Stmt.loop? = some loop ↔ node = .stmt loop.toStmt := by
  cases node with
  | stmt found => simp [stmt?, Stmt.loop?_eq_some_iff]
  | item | expr => simp [stmt?]

/-- A loop inside another one is a statement of its body. -/
theorem Loop.mem_statements_of_mem_descendants {outer inner : Loop}
    (inside : .stmt inner.toStmt ∈ (Node.stmt outer.toStmt).descendants) :
    inner.toStmt ∈ outer.body.statements := by
  have shape : (Node.stmt outer.toStmt).descendants =
      outer.seq.outline.preorder ++ (outer.body.nodes ++ []) := rfl
  rw [shape, List.append_nil, List.mem_append] at inside
  cases inside with
  | inl inSeq =>
      have none := Expr.stmt?_eq_none_of_mem_preorder inSeq
      simp [Node.stmt?] at none
  | inr inBody => exact List.mem_filterMap.mpr ⟨_, inBody, rfl⟩

namespace SourceTree

/-- The items lie in a source text of `length` bytes, one behind the other, and all
nodes inside them lie as they nest. -/
def Nested (length : Nat) (tree : SourceTree) : Prop :=
  Outline.InLine 0 length (Item.outlines tree.items)

variable {tree : SourceTree} {target : Span} {length : Nat}

theorem Nested.nodesAround_eq_filter (nested : tree.Nested length) (target : Span) :
    tree.nodesAround target = tree.nodes.filter (·.span.contains target) :=
  nested.aroundAll_eq_filter

/-- The path comes from one of the items, or there is none. -/
theorem Nested.nodesAround_eq (nested : tree.Nested length)
    (nonempty : target.start < target.stop) :
    tree.nodesAround target = [] ∨
      ∃ item ∈ tree.items, item.outline.Nested ∧
        tree.nodesAround target = item.outline.around target := by
  cases nested.aroundAll_eq nonempty with
  | inl none => exact .inl none
  | inr only =>
      obtain ⟨outline, listed, -, only⟩ := only
      have nested := nested.nested outline listed
      rw [Item.outlines_eq_map] at listed
      obtain ⟨item, isItem, rfl⟩ := List.mem_map.mp listed
      exact .inr ⟨item, isItem, nested, only⟩

theorem Nested.descends (nested : tree.Nested length) (nonempty : target.start < target.stop) :
    Outline.Descends (tree.nodesAround target) ∧
      ∀ node ∈ (tree.nodesAround target).head?, node ∈ tree.items.map Node.item := by
  cases nested.nodesAround_eq nonempty with
  | inl none =>
      rw [none]
      exact ⟨.nil, by simp⟩
  | inr only =>
      obtain ⟨item, isItem, nested, only⟩ := only
      rw [only]
      refine ⟨nested.descends (Outline.ofNode_of_node (.item item)) nonempty, fun node met => ?_⟩
      rw [Outline.head?_around met, Item.outline_eq]
      exact List.mem_map_of_mem isItem

/-- The loops on the path are all loops around the target, from the innermost to the
outermost. -/
theorem Nested.enclosingLoops_eq (nested : tree.Nested length) (target : Span) :
    Node.enclosingLoops (tree.nodesAround target) =
      (tree.loops.filter (·.span.contains target)).reverse := by
  rw [nested.nodesAround_eq_filter, Node.enclosingLoops, SourceTree.loops, Node.loops, Node.loops,
    List.filterMap_reverse, List.filterMap_filter, List.filter_filterMap]
  congr 2
  funext node
  cases isLoop : node.stmt?.bind Stmt.loop? with
  | none => simp
  | some loop =>
      obtain rfl := Node.loop?_eq_some_iff.mp isLoop
      have span_eq : (Node.stmt loop.toStmt).span = loop.span := rfl
      rw [span_eq, Option.filter_some]

/-- Each loop on the path stands in the body of the next one. -/
theorem Nested.enclosingLoops_pairwise (nested : tree.Nested length)
    (nonempty : target.start < target.stop) :
    (Node.enclosingLoops (tree.nodesAround target)).Pairwise fun inner outer =>
      inner.toStmt ∈ outer.body.statements := by
  have descends := (nested.descends nonempty).1.pairwise
  rw [Node.enclosingLoops, Node.loops, List.filterMap_reverse, List.pairwise_reverse,
    List.pairwise_filterMap]
  refine descends.imp ?_
  intro outer inner inside outerLoop isOuter innerLoop isInner
  rw [Node.loop?_eq_some_iff.mp isOuter, Node.loop?_eq_some_iff.mp isInner] at inside
  exact Loop.mem_statements_of_mem_descendants inside

end SourceTree

end QueryLoop
