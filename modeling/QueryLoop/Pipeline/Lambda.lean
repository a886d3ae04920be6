import QueryLoop.Resolver
import QueryLoop.Tree.Build

namespace QueryLoop

def numberedName (preferred : String) : Nat → String
  | 0 => preferred
  | number + 1 => preferred ++ toString (number + 1)

/-- The first of the numbered names that is not taken.  One of the first
`taken.length + 1` is free, since they all differ. -/
def freshName (taken : List String) (preferred : String) : String :=
  (((List.range (taken.length + 1)).map (numberedName preferred)).find? (· ∉ taken)).getD
    preferred

namespace Resolver

def otherNames (resolver : Resolver) (expr : Expr) (var : String) : List String :=
  (expr.identifiers.filter fun found => !resolver.denotes found var).filterMap Expr.name?

/-- A lambda whose parameter hides `var`. -/
def hides (resolver : Resolver) (var : String) : Expr → Bool
  | .lambda span param _ => resolver.denotes (.ident span param) var
  | _ => false

/-- `param` in place of every use of `var`, except inside lambdas that hide it. -/
def renamed (resolver : Resolver) (var param : String) (expr : Expr) : Expr :=
  expr.rebuild fun part =>
    if resolver.hides var part then some part
    else if resolver.denotes part var then some (.ident part.span param)
    else none

def parameterFor (resolver : Resolver) (expr : Expr) (var preferred : String) : String :=
  freshName (resolver.otherNames expr var) preferred

/-- `param => expr` with the parameter in place of `var`; nothing if `expr` does
not use it. -/
def lambda? (resolver : Resolver) (expr : Expr) (var preferred : String) (negate : Bool) :
    Option Expr :=
  if resolver.references expr var then
    let param := resolver.parameterFor expr var preferred
    let body := resolver.renamed var param expr
    some (.abstracted param (if negate then body.negated else body))
  else none

end Resolver

end QueryLoop
