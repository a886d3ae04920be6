import QueryLoop.Resolver

namespace QueryLoop

inductive Shape where
  /-- The whole body is `if (condition) body` without an `else`. -/
  | filterIf (condition survivingBody : Span)
  /-- The body starts with `if (condition) continue;` and goes on. -/
  | filterIfContinue (condition guard : Span)
  /-- The body starts by declaring `newVariable` from the loop variable. -/
  | map (newVariable : String) (declarator source : Span)
deriving DecidableEq, Repr

namespace Shape

def reportSpan : Shape → Span
  | filterIf condition _ => condition
  | filterIfContinue condition _ => condition
  | map _ declarator _ => declarator

def isFilter : Shape → Bool
  | filterIf .. => true
  | filterIfContinue .. => true
  | map .. => false

end Shape

namespace Stmt

def branches? : Stmt → Option (Expr × Stmt × Option Stmt)
  | ifThen _ cond body => some (cond, body, none)
  | ifElse _ cond body otherwise => some (cond, body, some otherwise)
  | _ => none

/-- `if (cond) body`, alone or as the only statement of a block. -/
def loneIf? : Stmt → Option (Expr × Stmt)
  | ifThen _ cond body => some (cond, body)
  | block _ [ifThen _ cond body] => some (cond, body)
  | _ => none

/-- `continue;`, alone or as the only statement of a block. -/
def isContinueBranch : Stmt → Bool
  | continueLoop _ => true
  | block _ [continueLoop _] => true
  | _ => false

end Stmt

namespace Loop

/-- Nothing in the loop was skipped in reading.  What was skipped may use the
loop variable, so such a loop is left alone. -/
def isReadable (loop : Loop) : Bool :=
  !loop.seq.hasError && !loop.body.hasError

def filterIf? (loop : Loop) (resolver : Resolver) : Option Shape :=
  if loop.isReadable then
    match loop.body.loneIf? with
    | some (cond, body) =>
        if resolver.references cond (resolver.loopVariable loop) then
          some (.filterIf cond.span body.span)
        else none
    | none => none
  else none

def filterIfContinue? (loop : Loop) (resolver : Resolver) : Option Shape :=
  if loop.isReadable then
    match loop.body with
    | .block _ (first :: _ :: _) =>
        match first.branches? with
        | some (cond, body, _) =>
            if body.isContinueBranch &&
                resolver.references cond (resolver.loopVariable loop) then
              some (.filterIfContinue cond.span first.span)
            else none
        | none => none
    | _ => none
  else none

/-- The first declarator must be made from the loop variable.  The loop variable
is gone once the loop runs over the projection, so neither the other declarators
nor any later statement may mention it.  The new variable becomes the loop
variable, so nothing may assign to it. -/
def map? (loop : Loop) (resolver : Resolver) : Option Shape :=
  if loop.isReadable then
    match loop.body with
    | .block _ (.decl _ ⟨_, ⟨name, some init, span⟩ :: others⟩ :: rest) =>
        let var := resolver.loopVariable loop
        let declared := resolver.declared ⟨name, some init, span⟩
        if resolver.references init var &&
            !(others.filterMap Declarator.init).any (resolver.references · var) &&
            !rest.any (resolver.referencesIn · var) &&
            !rest.any (fun stmt => stmt.assignTargets.any (resolver.denotes · declared)) then
          some (.map name span init.span)
        else none
    | _ => none
  else none

def filter? (loop : Loop) (resolver : Resolver) : Option Shape :=
  (loop.filterIfContinue? resolver).or (loop.filterIf? resolver)

end Loop

end QueryLoop
