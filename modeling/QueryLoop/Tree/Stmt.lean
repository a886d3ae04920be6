import QueryLoop.Tree.Expr

namespace QueryLoop

structure Declarator where
  name : String
  init : Option Expr
  span : Span
deriving BEq, Repr, Inhabited

structure LocalDecl where
  type : TypeRef
  declarators : List Declarator
deriving BEq, Repr, Inhabited

inductive Stmt where
  | block (span : Span) (stmts : List Stmt)
  | decl (span : Span) (declared : LocalDecl)
  | expr (span : Span) (value : Expr)
  | ifThen (span : Span) (cond : Expr) (body : Stmt)
  | ifElse (span : Span) (cond : Expr) (body otherwise : Stmt)
  | foreach (span : Span) (type : TypeRef) (var : String) (varSpan : Span) (seq : Expr)
      (body : Stmt)
  | whileLoop (span : Span) (cond : Expr) (body : Stmt)
  | continueLoop (span : Span)
  | breakLoop (span : Span)
  | returnValue (span : Span) (value : Option Expr)
  | empty (span : Span)
  | error (span : Span)
deriving BEq, Repr, Inhabited

namespace Stmt

def span : Stmt → Span
  | block span .. => span
  | decl span .. => span
  | expr span .. => span
  | ifThen span .. => span
  | ifElse span .. => span
  | foreach span .. => span
  | whileLoop span .. => span
  | continueLoop span => span
  | breakLoop span => span
  | returnValue span .. => span
  | empty span => span
  | error span => span

def isContinue : Stmt → Bool
  | continueLoop _ => true
  | _ => false

/-- A declaration that declares nothing; only a planned loop has one. -/
def isEmptyDecl : Stmt → Bool
  | decl _ ⟨_, []⟩ => true
  | _ => false

end Stmt

structure Loop where
  span : Span
  type : TypeRef
  var : String
  varSpan : Span
  seq : Expr
  body : Stmt
deriving BEq, Repr, Inhabited

namespace Loop

def toStmt (loop : Loop) : Stmt :=
  .foreach loop.span loop.type loop.var loop.varSpan loop.seq loop.body

end Loop

namespace Stmt

def loop? : Stmt → Option Loop
  | foreach span type var varSpan seq body => some ⟨span, type, var, varSpan, seq, body⟩
  | _ => none

theorem loop?_eq_some_iff {stmt : Stmt} {loop : Loop} :
    stmt.loop? = some loop ↔ stmt = loop.toStmt := by
  constructor
  · intro found
    cases stmt <;> simp only [loop?, Option.some.injEq, reduceCtorEq] at found
    subst found
    rfl
  · rintro rfl
    rfl

end Stmt

end QueryLoop
