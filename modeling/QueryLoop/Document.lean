import QueryLoop.Parse

namespace QueryLoop

structure Document where
  path : String
  source : String
  tree : SourceTree
deriving BEq, Repr, Inhabited

/-- The text under a span, if it starts and ends between characters of `source`. -/
def textAt? (source : String) (span : Span) : Option String :=
  (Text.slice? source.toList span.start span.stop).map String.ofList

namespace Document

def parse (source path : String) : Document × List Problem :=
  let (tree, problems) := SourceTree.parse source
  (⟨path, source, tree⟩, problems)

/-- The text under a span; empty when there is none. -/
def text (document : Document) (span : Span) : String :=
  (textAt? document.source span).getD ""

end Document

end QueryLoop
