import QueryLoop.Pipeline.Plan
import QueryLoop.Tree.Replace

namespace QueryLoop

/-- A new tree, and the region of the source it differs in. -/
structure Edit where
  tree : SourceTree
  region : Span
deriving BEq, Repr

def Loop.tidied (loop : Loop) : Stmt :=
  loop.toStmt.removeEmptyDecls.1

/-- Replaces the statement with the span of the planned loop; nothing if the tree
has no such statement. -/
def SourceTree.edit? (tree : SourceTree) (planned : Loop) : Option Edit :=
  (tree.replaceStmt? planned.span planned.tidied).map fun tree => ⟨tree, planned.span⟩

end QueryLoop
