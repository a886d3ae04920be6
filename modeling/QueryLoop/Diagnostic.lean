import QueryLoop.Document
import QueryLoop.Rule

namespace QueryLoop

def refactorProperty : String :=
  "--RefactorType"

structure Diagnostic where
  id : String
  severity : Severity
  message : String
  span : Span
  path : String
  refactorTag : Option String
deriving DecidableEq, Repr

namespace Diagnostic

def ofFinding (rule : Rule) (path : String) (finding : Finding) : Diagnostic :=
  let refactor := Refactor.ofShape finding.shape
  { id := rule.id
    severity := rule.severity
    message := rule.message refactor.pipelineMethod
    span := finding.shape.reportSpan
    path
    refactorTag := some refactor.tag }

def properties (diagnostic : Diagnostic) : List (String × String) :=
  (diagnostic.refactorTag.map (refactorProperty, ·)).toList

def report (diagnostic : Diagnostic) : String :=
  "[" ++ diagnostic.id ++ "] " ++ diagnostic.message

end Diagnostic

/-- The diagnostics of a document.  A cancelled scan has none. -/
def Document.analyze (document : Document) (config : Config) (resolver : Resolver)
    (cancelled : Bool) : List Diagnostic :=
  if config.rule.enabled then
    match document.tree.scan resolver config.options cancelled with
    | .ok findings => findings.map (Diagnostic.ofFinding config.rule document.path)
    | .error _ => []
  else []

inductive AnalysisKind where
  | sourceTree
deriving DecidableEq, Repr

structure Registration where
  kinds : List AnalysisKind := []
  concurrent : Bool := false
deriving DecidableEq, Repr

/-- Registers the analyzer; doing it again changes nothing. -/
def Registration.initialized (registration : Registration) : Registration where
  kinds :=
    if .sourceTree ∈ registration.kinds then registration.kinds
    else registration.kinds ++ [.sourceTree]
  concurrent := true

end QueryLoop
