import QueryLoop.Diagnostic
import QueryLoop.Pipeline.Edit

namespace QueryLoop

/-! From a diagnostic back to an edit of the tree.

A diagnostic carries only a span and a tag.  To apply it, the loop around the
span is looked up again and must still have the shape the tag stands for at the
same span. -/

inductive Obstacle where
  | noLoopAround
  | noLongerMatches
  | notInTree
deriving DecidableEq, Repr

def Obstacle.message : Obstacle → String
  | noLoopAround => "no foreach loop around the diagnostic"
  | noLongerMatches => "the loop no longer matches"
  | notInTree => "the loop is not part of the tree"

inductive FixError where
  | inapplicable (obstacle : Obstacle)
  | plan (problem : PlanError)
  | cancelled
  | unknownTag (tag : String)
  | missingTag
deriving DecidableEq, Repr

def FixError.message : FixError → String
  | inapplicable obstacle => "fix is not applicable: " ++ obstacle.message
  | plan problem => problem.message
  | cancelled => "fix was cancelled"
  | unknownTag tag => "unknown refactor type \"" ++ tag ++ "\""
  | missingTag => "diagnostic carries no refactor type"

def Diagnostic.refactor (diagnostic : Diagnostic) : Except FixError Refactor :=
  match diagnostic.refactorTag with
  | none => .error .missingTag
  | some tag =>
      match Refactor.ofTag? tag with
      | none => .error (.unknownTag tag)
      | some refactor => .ok refactor

structure Action where
  title : String
  refactor : Refactor
  diagnostic : Diagnostic
  options : ScanOptions
  resolver : Resolver

inductive Warning where
  | unusable (path : String) (problem : FixError)
  | skipped (title : String) (problem : FixError)
deriving DecidableEq, Repr

def Warning.message : Warning → String
  | unusable path problem => path ++ ": " ++ problem.message
  | skipped title problem => "skipping \"" ++ title ++ "\": " ++ problem.message

namespace Document

/-- An action for every diagnostic that can be fixed, in order.  Those without a
usable tag are left out. -/
def actions (document : Document) (diagnostics : List Diagnostic) (config : Config)
    (resolver : Resolver) : List Action × List Warning :=
  match diagnostics with
  | [] => ([], [])
  | diagnostic :: diagnostics =>
      let (actions, warnings) := document.actions diagnostics config resolver
      if diagnostic.id = fixableId then
        match diagnostic.refactor with
        | .ok refactor =>
            let action : Action :=
              ⟨"Convert to " ++ refactor.pipelineMethod, refactor, diagnostic, config.options,
                resolver⟩
            (action :: actions, warnings)
        | .error problem => (actions, .unusable document.path problem :: warnings)
      else (actions, warnings)

end Document

namespace Action

def applyTo (action : Action) (tree : SourceTree) : Except FixError Edit :=
  let span := action.diagnostic.span
  match Node.enclosingLoops (tree.nodesAround span) with
  | [] => .error (.inapplicable .noLoopAround)
  | loop :: _ =>
      match (action.refactor.shape? loop action.resolver).filter (·.reportSpan = span) with
      | none => .error (.inapplicable .noLongerMatches)
      | some shape =>
          match loop.plan shape action.resolver action.options with
          | .error problem => .error (.plan problem)
          | .ok planned =>
              match tree.edit? planned with
              | none => .error (.inapplicable .notInTree)
              | some edit => .ok edit

def apply (action : Action) (document : Document) (cancelled : Bool) : Except FixError Edit :=
  if cancelled then .error .cancelled else action.applyTo document.tree

end Action

/-- The first action that succeeds, and warnings for the ones before it. -/
def firstEdit (document : Document) : List Action → Option Edit × List Warning
  | [] => (none, [])
  | action :: actions =>
      match action.applyTo document.tree with
      | .ok edit => (some edit, [])
      | .error problem =>
          let (edit, warnings) := firstEdit document actions
          (edit, .skipped action.title problem :: warnings)

/-- A document after fixes, their number, the regions of the source they covered in the
order they were made, and what was left out. -/
structure Fixed where
  document : Document
  applied : Nat
  regions : List Span
  warnings : List Warning
deriving Repr

namespace Document

def fixOne (document : Document) (config : Config) : Option Edit × List Warning :=
  let diagnostics := document.analyze config .textual false
  let (actions, unusable) := document.actions diagnostics config .textual
  let (edit, skipped) := firstEdit document actions
  (edit, unusable ++ skipped)

/-- At most `rounds` fixes, each after a fresh analysis. -/
def fixRounds (document : Document) (config : Config) : (rounds : Nat) → Fixed
  | 0 => ⟨document, 0, [], []⟩
  | rounds + 1 =>
      match document.fixOne config with
      | (none, warnings) => ⟨document, 0, [], warnings⟩
      | (some edit, warnings) =>
          let fixed := fixRounds { document with tree := edit.tree } config rounds
          { fixed with
            applied := fixed.applied + 1
            regions := edit.region :: fixed.regions
            warnings := warnings ++ fixed.warnings }

/-- Fixes until nothing is left to fix.  Every fix consumes a statement or a
declarator, so the number of rounds is bounded by the size of the tree. -/
def fixUntilDone (document : Document) (config : Config) : Fixed :=
  document.fixRounds config (document.tree.countStatements + 1)

def fixAll (document : Document) (config : Config) (cancelled : Bool) : Except FixError Fixed :=
  if cancelled then .error .cancelled else .ok (document.fixUntilDone config)

end Document

end QueryLoop
