import QueryLoop.Finding
import QueryLoop.Pipeline.Lambda

namespace QueryLoop

/-! The loop that takes the place of a loop with a shape.

The shape is checked against the loop first, so one that was found in an older
tree is refused instead of giving a broken loop. -/

inductive Mismatch where
  | notLoop
  | notLoneIf
  | conditionMoved
  | bodyNotBlock
  | bodyEmpty
  | firstNotIf
  | guardMoved
  | firstNotDecl
  | noDeclarator
  | noInitializer
  | declaratorMoved
deriving DecidableEq, Repr

def Mismatch.message : Mismatch → String
  | notLoop => "not a foreach loop"
  | notLoneIf => "body is not a single if"
  | conditionMoved => "condition moved"
  | bodyNotBlock => "body is not a block"
  | bodyEmpty => "body is empty"
  | firstNotIf => "first statement is not an if"
  | guardMoved => "guard moved"
  | firstNotDecl => "first statement is not a declaration"
  | noDeclarator => "declaration has no declarator"
  | noInitializer => "declarator has no initializer"
  | declaratorMoved => "declarator moved"

inductive PlanError where
  | shapeMismatch (mismatch : Mismatch)
  | loopVariableUnused
deriving DecidableEq, Repr

def PlanError.message : PlanError → String
  | shapeMismatch mismatch => "loop changed since analysis: " ++ mismatch.message
  | loopVariableUnused => "the expression does not use the loop variable"

/-- The statements of an `else` branch; they only ran where the guard did not
continue, so they move up as they are. -/
def Stmt.flattened : Option Stmt → List Stmt
  | none => []
  | some (.block _ stmts) => stmts
  | some stmt => [stmt]

namespace Loop

def pipeline (loop : Loop) (method : String) (expr : Expr) (negate : Bool)
    (resolver : Resolver) (options : ScanOptions) : Except PlanError Expr :=
  match resolver.lambda? expr (resolver.loopVariable loop) options.lambdaParameter negate with
  | none => .error .loopVariableUnused
  | some lambda => .ok (loop.seq.memberCall method [lambda])

def planFilterIf (loop : Loop) (condition survivingBody : Span) (resolver : Resolver)
    (options : ScanOptions) : Except PlanError Loop :=
  match loop.body.loneIf? with
  | none => .error (.shapeMismatch .notLoneIf)
  | some (cond, body) =>
      if cond.span = condition ∧ body.span = survivingBody then
        match loop.pipeline "Where" cond false resolver options with
        | .error problem => .error problem
        | .ok seq => .ok { loop with seq, body }
      else .error (.shapeMismatch .conditionMoved)

def planFilterIfContinue (loop : Loop) (condition guard : Span) (resolver : Resolver)
    (options : ScanOptions) : Except PlanError Loop :=
  match loop.body with
  | .block _ [] => .error (.shapeMismatch .bodyEmpty)
  | .block span (first :: rest) =>
      match first.branches? with
      | none => .error (.shapeMismatch .firstNotIf)
      | some (cond, body, otherwise) =>
          if first.span = guard ∧ cond.span = condition ∧ body.isContinueBranch then
            match loop.pipeline "Where" cond true resolver options with
            | .error problem => .error problem
            | .ok seq =>
                .ok { loop with seq, body := .block span (Stmt.flattened otherwise ++ rest) }
          else .error (.shapeMismatch .guardMoved)
  | _ => .error (.shapeMismatch .bodyNotBlock)

/-- The first declarator becomes the loop variable; the declaration stays with
the other ones, even if there are none. -/
def planMap (loop : Loop) (newVariable : String) (declarator source : Span)
    (resolver : Resolver) (options : ScanOptions) : Except PlanError Loop :=
  match loop.body with
  | .block span stmts =>
      match stmts with
      | [] => .error (.shapeMismatch .bodyEmpty)
      | .decl declSpan ⟨type, declarators⟩ :: rest =>
          match declarators with
          | [] => .error (.shapeMismatch .noDeclarator)
          | ⟨_, none, _⟩ :: _ => .error (.shapeMismatch .noInitializer)
          | ⟨name, some init, headSpan⟩ :: others =>
              if headSpan = declarator ∧ name = newVariable ∧ init.span = source then
                match loop.pipeline "Select" init false resolver options with
                | .error problem => .error problem
                | .ok seq =>
                    .ok { loop with
                      type
                      var := name
                      seq
                      body := .block span (.decl declSpan ⟨type, others⟩ :: rest) }
              else .error (.shapeMismatch .declaratorMoved)
      | _ :: _ => .error (.shapeMismatch .firstNotDecl)
  | _ => .error (.shapeMismatch .bodyNotBlock)

def plan (loop : Loop) (shape : Shape) (resolver : Resolver) (options : ScanOptions) :
    Except PlanError Loop :=
  match shape with
  | .filterIf condition survivingBody =>
      loop.planFilterIf condition survivingBody resolver options
  | .filterIfContinue condition guard =>
      loop.planFilterIfContinue condition guard resolver options
  | .map newVariable declarator source =>
      loop.planMap newVariable declarator source resolver options

end Loop

def Stmt.plan (stmt : Stmt) (shape : Shape) (resolver : Resolver) (options : ScanOptions) :
    Except PlanError Loop :=
  match stmt.loop? with
  | none => .error (.shapeMismatch .notLoop)
  | some loop => loop.plan shape resolver options

end QueryLoop
