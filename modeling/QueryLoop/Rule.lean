import QueryLoop.Finding

namespace QueryLoop

inductive Severity where
  | hidden
  | info
  | warning
  | error
deriving DecidableEq, Repr, Inhabited

inductive ReportKind where
  | advice
  | warning
  | error
deriving DecidableEq, Repr

namespace Severity

def reportKind : Severity → ReportKind
  | hidden => .advice
  | info => .advice
  | warning => .warning
  | error => .error

def text : Severity → String
  | hidden => "hidden"
  | info => "info"
  | warning => "warning"
  | error => "error"

def ofText? : String → Option Severity
  | "hidden" => some hidden
  | "info" => some info
  | "warning" => some warning
  | "error" => some error
  | _ => none

end Severity

def fixableId : String :=
  "ForeachToLinq"

structure Rule where
  id : String := fixableId
  title : String := "Loop can be simplified with LINQ"
  /-- The placeholder `{0}` stands for the name of the pipeline method. -/
  messageFormat : String := "The foreach loop can be rewritten using '\x7b0\x7d'"
  category : String := "Naming"
  severity : Severity := .info
  enabled : Bool := true
deriving DecidableEq, Repr, Inhabited

def fillPlaceholders (argument : List Char) : (text : List Char) → List Char
  | '\x7b' :: '0' :: '\x7d' :: rest => argument ++ fillPlaceholders argument rest
  | c :: rest => c :: fillPlaceholders argument rest
  | [] => []

def Rule.message (rule : Rule) (argument : String) : String :=
  String.ofList (fillPlaceholders argument.toList rule.messageFormat.toList)

structure Config where
  options : ScanOptions := {}
  rule : Rule := {}
deriving DecidableEq, Repr, Inhabited

/-- The kinds of refactorings, one for each shape. -/
inductive Refactor where
  | containingIf
  | ifWithContinue
  | leadingDecl
deriving DecidableEq, Repr

namespace Refactor

def tag : Refactor → String
  | containingIf => "--ContainingIf"
  | ifWithContinue => "--IfWithContinue"
  | leadingDecl => "--VariableToWhere"

def ofTag? : String → Option Refactor
  | "--ContainingIf" => some containingIf
  | "--IfWithContinue" => some ifWithContinue
  | "--VariableToWhere" => some leadingDecl
  | _ => none

def ofShape : Shape → Refactor
  | .filterIf .. => containingIf
  | .filterIfContinue .. => ifWithContinue
  | .map .. => leadingDecl

def pipelineMethod : Refactor → String
  | containingIf => "Where"
  | ifWithContinue => "Where"
  | leadingDecl => "Select"

def shape? (refactor : Refactor) (loop : Loop) (resolver : Resolver) : Option Shape :=
  match refactor with
  | containingIf => loop.filterIf? resolver
  | ifWithContinue => loop.filterIfContinue? resolver
  | leadingDecl => loop.map? resolver

end Refactor

end QueryLoop
