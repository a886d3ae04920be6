import QueryLoop.Shape

namespace QueryLoop

structure ScanOptions where
  reportFilters : Bool := true
  reportMaps : Bool := true
  lambdaParameter : String := "x"
deriving DecidableEq, Repr, Inhabited

/-- A loop with a shape; `loopSpan` is the span of the whole loop. -/
structure Finding where
  loopSpan : Span
  shape : Shape
deriving DecidableEq, Repr

inductive Cancelled where
  | cancelled
deriving DecidableEq, Repr

def Cancelled.message : Cancelled → String
  | .cancelled => "operation was cancelled"

def Loop.shapes (loop : Loop) (resolver : Resolver) (options : ScanOptions) : List Shape :=
  (if options.reportFilters then loop.filter? resolver else none).toList ++
    (if options.reportMaps then loop.map? resolver else none).toList

namespace SourceTree

def findings (tree : SourceTree) (resolver : Resolver) (options : ScanOptions) : List Finding :=
  tree.loops.flatMap fun loop =>
    (loop.shapes resolver options).map fun shape => ⟨loop.span, shape⟩

/-- All findings, or none at all when the scan is cancelled.  Cancellation is
noticed at a loop, so a tree without loops is always scanned to the end. -/
def scan (tree : SourceTree) (resolver : Resolver) (options : ScanOptions)
    (cancelled : Bool) : Except Cancelled (List Finding) :=
  if cancelled && !tree.loops.isEmpty then .error .cancelled
  else .ok (tree.findings resolver options)

end SourceTree

end QueryLoop
