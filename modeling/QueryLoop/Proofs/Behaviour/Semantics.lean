import QueryLoop.Pipeline.Edit
import QueryLoop.Proofs.Binding.Names
import QueryLoop.Proofs.Behaviour.Computation

namespace QueryLoop

/-! What programs do when they run.

Scopes, control flow and sequences have a fixed meaning here: locals live from their
declaration to the end of the block, a loop takes the elements of its sequence in
order, and `Where` and `Select` do their work on an element when the loop gets to it.
What literals, operators, members and calls do is left open.  An operation gets its
operands unevaluated, so it is free to evaluate them in any order, more than once or
not at all; all it promises is to reach local variables only through them.  So no
function keeps a local variable beyond the evaluation it is passed to.  Values are
stored as they are, whatever type a declaration names.
-/

inductive Operation where
  | literal (value : Literal)
  /-- A name that is no local variable. -/
  | readOuter (name : String)
  | writeOuter (name : String)
  /-- The value of an operand that has one only by an operation, such as a member. -/
  | valueOf
  | call
  | new (type : TypeRef)
  | unary (op : UnaryOp)
  | binary (op : BinaryOp)
  | assign

/-- What an operation is applied to. -/
inductive Operand (Value World Event : Type) where
  | computed (value : Computation (State Value World) Event Value)
  | named (name : String)
  | member (target : Computation (State Value World) Event Value) (name : String)
      (typeArgs : List TypeRef)
  | element (target position : Computation (State Value World) Event Value)
  | function (apply : Value → Computation (State Value World) Event Value)

namespace Operand

variable {Value World Event : Type}

/-- The operand gives no access to the local variable. -/
def Ignores (name : String) : Operand Value World Event → Prop
  | computed value => value.Ignores name
  | named found => found ≠ name
  | member target _ _ => target.Ignores name
  | element target position => target.Ignores name ∧ position.Ignores name
  | function apply => ∀ argument, (apply argument).Ignores name

end Operand

/-- A meaning for everything but scopes, control flow and sequences. -/
structure Semantics (Value World Event : Type) where
  isTrue : Value → Bool
  /-- What a variable without an initializer holds. -/
  initial : TypeRef → Value
  elements : Value → Computation (State Value World) Event (List Value)
  operate : Operation → List (Operand Value World Event) →
    Computation (State Value World) Event Value
  elements_ignores (value : Value) (name : String) : (elements value).Ignores name
  operate_ignores {operation : Operation} {operands : List (Operand Value World Event)}
    {name : String} (ignored : ∀ operand ∈ operands, operand.Ignores name) :
    (operate operation operands).Ignores name

/-- How a statement ends. -/
inductive Exit (Value : Type) where
  | normal
  | broken
  | continued
  | returned (value : Option Value)

namespace Exit

variable {Value World Event : Type}

/-- How a loop ends whose body ended so; nothing if it goes on. -/
def ofBody? : Exit Value → Option (Exit Value)
  | normal => none
  | continued => none
  | broken => some normal
  | returned value => some (returned value)

/-- A statement and the ones behind it, which only run if it ends normally. -/
def andThen (first rest : Computation (State Value World) Event (Exit Value)) :
    Computation (State Value World) Event (Exit Value) := do
  match ← first with
  | normal => rest
  | exit => pure exit

end Exit

/-- The elements a loop runs over: those of the source that get through the stage, which
may change them. -/
structure Elements (Value World Event : Type) where
  source : Computation (State Value World) Event (List Value)
  stage : Value → Computation (State Value World) Event (Option Value)

namespace Elements

variable {Value World Event : Type}

def filter (elements : Elements Value World Event)
    (keep : Value → Computation (State Value World) Event Bool) : Elements Value World Event where
  source := elements.source
  stage element := do
    match ← elements.stage element with
    | none => pure none
    | some found => do
        let kept ← keep found
        pure (if kept then some found else none)

def map (elements : Elements Value World Event)
    (project : Value → Computation (State Value World) Event Value) :
    Elements Value World Event where
  source := elements.source
  stage element := do
    match ← elements.stage element with
    | none => pure none
    | some found => do
        let projected ← project found
        pure (some projected)

/-- The body with the loop variable bound to one element. -/
def visit (var : String) (body : Computation (State Value World) Event (Exit Value))
    (element : Value) : Computation (State Value World) Event (Option (Exit Value)) := do
  let exit ← Computation.withLocal var element body
  pure exit.ofBody?

/-- The body for an element of the source, if it gets through. -/
def step (elements : Elements Value World Event)
    (body : Value → Computation (State Value World) Event (Option (Exit Value)))
    (element : Value) : Computation (State Value World) Event (Option (Exit Value)) := do
  match ← elements.stage element with
  | none => pure none
  | some found => body found

def loop (elements : Elements Value World Event)
    (body : Value → Computation (State Value World) Event (Option (Exit Value))) :
    Computation (State Value World) Event (Exit Value) := do
  let values ← elements.source
  let ended ← Computation.each (elements.step body) values
  pure (ended.getD .normal)

end Elements

namespace Semantics

variable {Value World Event : Type}

def read (sem : Semantics Value World Event) (name : String) :
    Computation (State Value World) Event Value :=
  ⟨fun start events final value =>
    match start.locals name with
    | some held => (pure held : Computation _ Event Value).runs start events final value
    | none => (sem.operate (.readOuter name) []).runs start events final value⟩

/-- The value of an assignment is the value assigned. -/
def write (sem : Semantics Value World Event) (name : String) (value : Value) :
    Computation (State Value World) Event Value :=
  ⟨fun start events final result =>
    match start.locals name with
    | some _ => events = [] ∧ final = start.set name (some value) ∧ result = value
    | none =>
        (sem.operate (.writeOuter name) [.computed (pure value)]).runs start events final result⟩

def value (sem : Semantics Value World Event) :
    Operand Value World Event → Computation (State Value World) Event Value
  | .computed value => value
  | .named name => sem.read name
  | operand => sem.operate .valueOf [operand]

def assign (sem : Semantics Value World Event) (source : Operand Value World Event) :
    Operand Value World Event → Computation (State Value World) Event Value
  | .named name => sem.value source >>= sem.write name
  | target => sem.operate .assign [target, source]

mutual

def operand (sem : Semantics Value World Event) : Expr → Operand Value World Event
  | .literal _ value => .computed (sem.operate (.literal value) [])
  | .ident _ name => .named name
  | .member _ target name typeArgs => .member (sem.value (sem.operand target)) name typeArgs
  | .call _ callee args => .computed (sem.operate .call (sem.operand callee :: sem.operands args))
  | .index _ target position =>
      .element (sem.value (sem.operand target)) (sem.value (sem.operand position))
  | .new _ type args => .computed (sem.operate (.new type) (sem.operands args))
  | .unary _ op inner => .computed (sem.operate (.unary op) [sem.operand inner])
  | .binary _ op lhs rhs =>
      .computed (sem.operate (.binary op) [sem.operand lhs, sem.operand rhs])
  | .assign _ lhs rhs => .computed (sem.assign (sem.operand rhs) (sem.operand lhs))
  | .lambda _ param body =>
      .function fun argument => .withLocal param argument (sem.value (sem.operand body))
  | .paren _ inner => sem.operand inner
  | .error _ => .computed .stuck

def operands (sem : Semantics Value World Event) :
    List Expr → List (Operand Value World Event)
  | [] => []
  | expr :: exprs => sem.operand expr :: sem.operands exprs

end

def evaluate (sem : Semantics Value World Event) (expr : Expr) :
    Computation (State Value World) Event Value :=
  sem.value (sem.operand expr)

def test (sem : Semantics Value World Event) (cond : Expr) :
    Computation (State Value World) Event Bool := do
  let found ← sem.evaluate cond
  pure (sem.isTrue found)

/-- The function a lambda stands for, applied to an argument. -/
def applied (sem : Semantics Value World Event) (param : String) (body : Expr) (argument : Value) :
    Computation (State Value World) Event Value :=
  .withLocal param argument (sem.evaluate body)

/-- As `applied`, for a lambda that decides. -/
def decided (sem : Semantics Value World Event) (param : String) (body : Expr) (argument : Value) :
    Computation (State Value World) Event Bool := do
  let found ← sem.applied param body argument
  pure (sem.isTrue found)

def elementsOf (sem : Semantics Value World Event) (seq : Expr) : Elements Value World Event where
  source := sem.evaluate seq >>= sem.elements
  stage element := pure (some element)

/-- A loop over `seq.Where(..)` or `seq.Select(..)` runs over the elements of `seq`. -/
def pipeline (sem : Semantics Value World Event) : Expr → Elements Value World Event
  | .paren _ inner => sem.pipeline inner
  | .call span (.member memberSpan target name typeArgs) [.lambda lambdaSpan param body] =>
      if name = "Where" then (sem.pipeline target).filter (sem.decided param body)
      else if name = "Select" then (sem.pipeline target).map (sem.applied param body)
      else sem.elementsOf
        (.call span (.member memberSpan target name typeArgs) [.lambda lambdaSpan param body])
  | seq => sem.elementsOf seq

def initialized (sem : Semantics Value World Event) (type : TypeRef) :
    Option Expr → Computation (State Value World) Event Value
  | none => pure (sem.initial type)
  | some init => sem.evaluate init

/-- Runs `rest` in the scope of the declared variables. -/
def declare (sem : Semantics Value World Event) (type : TypeRef)
    (rest : Computation (State Value World) Event (Exit Value)) :
    List Declarator → Computation (State Value World) Event (Exit Value)
  | [] => rest
  | declarator :: declarators => do
      let found ← sem.initialized type declarator.init
      .withLocal declarator.name found (sem.declare type rest declarators)

mutual

def run (sem : Semantics Value World Event) :
    Stmt → Computation (State Value World) Event (Exit Value)
  | .block _ stmts => sem.runIn stmts
  | .decl _ declared => sem.declare declared.type (pure .normal) declared.declarators
  | .expr _ value => do
      let _ ← sem.evaluate value
      pure .normal
  | .ifThen _ cond body => do
      if ← sem.test cond then sem.run body else pure .normal
  | .ifElse _ cond body otherwise => do
      if ← sem.test cond then sem.run body else sem.run otherwise
  | .foreach _ _ var _ seq body => (sem.pipeline seq).loop (Elements.visit var (sem.run body))
  | .whileLoop _ cond body => .repeated do
      if ← sem.test cond then
        let exit ← sem.run body
        pure exit.ofBody?
      else pure (some .normal)
  | .continueLoop _ => pure .continued
  | .breakLoop _ => pure .broken
  | .returnValue _ none => pure (.returned none)
  | .returnValue _ (some value) => do
      let found ← sem.evaluate value
      pure (.returned (some found))
  | .empty _ => pure .normal
  | .error _ => .stuck

/-- A declaration is in scope up to the end of its block. -/
def runIn (sem : Semantics Value World Event) :
    List Stmt → Computation (State Value World) Event (Exit Value)
  | [] => pure .normal
  | stmt :: stmts =>
      match stmt.declared? with
      | some declared => sem.declare declared.type (sem.runIn stmts) declared.declarators
      | none => Exit.andThen (sem.run stmt) (sem.runIn stmts)

end

/-- From every state the two statements can make the same events, end in the same state
and end in the same way. -/
def SameRuns (sem : Semantics Value World Event) (left right : Stmt) : Prop :=
  ∀ start events final exit,
    (sem.run left).runs start events final exit ↔ (sem.run right).runs start events final exit

end Semantics

end QueryLoop
