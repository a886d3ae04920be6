import QueryLoop.Proofs.Behaviour.Laws

namespace QueryLoop

/-! A semantics that can be run.

Values are numbers, and zero is both `null` and false.  Operands are evaluated from left
to right; a call is recorded with the values it is given and gives zero; a sequence
counts up to its value.
-/

namespace Recording

abbrev Memory := State Nat (String → Nat)

/-- What happens outside of the local variables: the events, the outer variables
afterwards and the value. -/
def act (step : (String → Nat) → List (List Nat) × (String → Nat) × Nat) :
    Computation Memory (List Nat) Nat :=
  ⟨fun start events final value => events = (step start.world).1 ∧
    final = { start with world := (step start.world).2.1 } ∧ value = (step start.world).2.2⟩

def record (call : List Nat) : Computation Memory (List Nat) Nat :=
  act fun world => ([call], world, 0)

def lookUp (name : String) : Computation Memory (List Nat) Nat :=
  ⟨fun start events final value =>
    events = [] ∧ final = start ∧ value = (start.locals name).getD (start.world name)⟩

/-- The end of the scope of a variable. -/
def leave (name : String) (held : Option Nat) : Computation Memory (List Nat) Unit :=
  ⟨fun start events final _ => events = [] ∧ final = start.set name held⟩

section Runs

variable {Result Other : Type} {start final : Memory} {events : List (List Nat)} {result : Result}
  {name : String}

@[simp] theorem lookUp_bind_runs_iff {next : Nat → Computation Memory (List Nat) Result} :
    (lookUp name >>= next).runs start events final result ↔
      (next ((start.locals name).getD (start.world name))).runs start events final result := by
  constructor
  · intro ran
    obtain ⟨_, _, _, _, rfl, ⟨rfl, rfl, rfl⟩, ranNext⟩ := ran
    exact ranNext
  · intro ranNext
    exact ⟨[], events, start, _, rfl, ⟨rfl, rfl, rfl⟩, ranNext⟩

@[simp] theorem record_bind_runs_iff {call : List Nat}
    {next : Nat → Computation Memory (List Nat) Result} :
    (record call >>= next).runs start events final result ↔
      ∃ later, events = call :: later ∧ (next 0).runs start later final result := by
  constructor
  · intro ran
    obtain ⟨_, later, _, _, rfl, ⟨rfl, rfl, rfl⟩, ranNext⟩ := ran
    exact ⟨later, rfl, ranNext⟩
  · intro ran
    obtain ⟨later, rfl, ranNext⟩ := ran
    exact ⟨[call], later, start, _, rfl, ⟨rfl, rfl, rfl⟩, ranNext⟩

@[simp] theorem leave_bind_runs_iff {held : Option Nat}
    {next : Unit → Computation Memory (List Nat) Result} :
    (leave name held >>= next).runs start events final result ↔
      (next ()).runs (start.set name held) events final result := by
  constructor
  · intro ran
    obtain ⟨_, _, _, _, rfl, ⟨rfl, rfl⟩, ranNext⟩ := ran
    exact ranNext
  · intro ranNext
    exact ⟨[], events, _, (), rfl, ⟨rfl, rfl⟩, ranNext⟩

@[simp] theorem withLocal_bind_runs_iff {value : Nat} {inner : Computation Memory (List Nat) Other}
    {next : Other → Computation Memory (List Nat) Result} :
    (Computation.withLocal name value inner >>= next).runs start events final result ↔
      (inner >>= fun found => leave name (start.locals name) >>= fun _ => next found).runs
        (start.set name (some value)) events final result := by
  constructor
  · intro ran
    obtain ⟨before, after, _, found, rfl, ⟨last, ranInner, rfl⟩, ranNext⟩ := ran
    exact ⟨before, after, last, found, rfl, ranInner, leave_bind_runs_iff.mpr ranNext⟩
  · intro ran
    obtain ⟨before, after, last, found, rfl, ranInner, ranNext⟩ := ran
    exact ⟨before, after, _, found, rfl, ⟨last, ranInner, rfl⟩, leave_bind_runs_iff.mp ranNext⟩

end Runs

theorem withLocal_lookUp {name : String} {value : Nat} :
    Computation.withLocal name value (lookUp name) = pure value := by
  ext start events final found
  constructor
  · intro ran
    obtain ⟨last, ⟨made, unchanged, held⟩, rfl⟩ := ran
    refine ⟨made, ?_, ?_⟩
    · rw [unchanged, State.set_set, State.set_locals]
    · rwa [State.locals_set_self] at held
  · intro ran
    obtain ⟨rfl, rfl, rfl⟩ := ran
    refine ⟨_, ⟨rfl, rfl, ?_⟩, ?_⟩
    · rw [State.locals_set_self]
      rfl
    · rw [State.set_set, State.set_locals]

/-- A computation that only looks at the variable. -/
theorem standsFor_lookUp {var : String} {look : Nat → Bool} :
    Computation.StandsFor (fun element => pure (look element)) var
      (lookUp var >>= fun held => pure (look held)) := by
  intro element start events final result
  constructor
  · intro ran
    obtain ⟨_, _, _, _, rfl, ⟨rfl, rfl, rfl⟩, rfl, rfl, rfl⟩ := ran
    refine ⟨start, ⟨rfl, rfl, ?_⟩, rfl⟩
    rw [State.locals_set_self]
    rfl
  · intro ran
    obtain ⟨_, ⟨rfl, rfl, rfl⟩, rfl⟩ := ran
    refine ⟨[], [], _, element, rfl, ⟨rfl, rfl, ?_⟩, rfl, rfl, rfl⟩
    rw [State.locals_set_self]
    rfl

def perform : Operation → List Nat → Computation Memory (List Nat) Nat
  | .literal .null, _ => pure 0
  | .literal _, _ => pure 1
  | .readOuter name, _ => act fun world => ([], world, world name)
  | .writeOuter name, values =>
      act fun world => ([], Function.update world name (values.headD 0), values.headD 0)
  | .unary .not, values => pure (1 - values.headD 0)
  | .binary .equal, values => pure (if values.head? = values.getLast? then 1 else 0)
  | .call, values => record values
  | _, values => pure (values.headD 0)

def valueOf : Operand Nat (String → Nat) (List Nat) → Computation Memory (List Nat) Nat
  | .computed value => value
  | .named name => lookUp name
  | .member target _ _ => target
  | .element target position => do
      let first ← target
      let second ← position
      pure (first + second)
  | .function _ => pure 0

def valuesOf :
    List (Operand Nat (String → Nat) (List Nat)) → Computation Memory (List Nat) (List Nat)
  | [] => pure []
  | operand :: operands => do
      let value ← valueOf operand
      let values ← valuesOf operands
      pure (value :: values)

theorem act_ignores {step : (String → Nat) → List (List Nat) × (String → Nat) × Nat}
    {name : String} : (act step).Ignores name where
  keeps := by
    intro start events final value ran
    rw [ran.2.1]
  moves := by
    intro start events final value ran held
    refine ⟨ran.1, ?_, ran.2.2⟩
    rw [ran.2.1]
    rfl

theorem perform_ignores {operation : Operation} {values : List Nat} {name : String} :
    (perform operation values).Ignores name := by
  unfold perform
  split
  · exact .pure 0
  · exact .pure 1
  · exact act_ignores
  · exact act_ignores
  · exact .pure _
  · exact .pure _
  · exact act_ignores
  · exact .pure _

theorem valueOf_ignores {operand : Operand Nat (String → Nat) (List Nat)} {name : String}
    (ignored : operand.Ignores name) : (valueOf operand).Ignores name := by
  cases operand with
  | computed value => exact ignored
  | named other =>
      constructor
      · intro start events final value ran
        rw [ran.2.1]
      · intro start events final value ran held
        refine ⟨ran.1, by rw [ran.2.1], ?_⟩
        rw [State.locals_set_of_ne ignored]
        exact ran.2.2
  | member target found typeArgs => exact ignored
  | element target position =>
      exact ignored.1.bind fun first => ignored.2.bind fun second => .pure _
  | function apply => exact .pure 0

theorem valuesOf_ignores {operands : List (Operand Nat (String → Nat) (List Nat))} {name : String}
    (ignored : ∀ operand ∈ operands, operand.Ignores name) : (valuesOf operands).Ignores name := by
  induction operands with
  | nil => exact .pure []
  | cons operand operands ih =>
      have here := valueOf_ignores (ignored operand (List.mem_cons_self ..))
      have later := ih fun other member => ignored other (List.mem_cons_of_mem _ member)
      exact here.bind fun value => later.bind fun values => .pure _

end Recording

/-- The semantics that records calls. -/
def Semantics.recording : Semantics Nat (String → Nat) (List Nat) where
  isTrue value := value ≠ 0
  initial _ := 0
  elements value := pure (List.range value)
  operate operation operands := Recording.valuesOf operands >>= Recording.perform operation
  elements_ignores _ _ := .pure _
  operate_ignores ignored :=
    (Recording.valuesOf_ignores ignored).bind fun _ => Recording.perform_ignores

namespace Recording

open Semantics

theorem elements_recording (value : Nat) : recording.elements value = pure (List.range value) := rfl

theorem evaluate_ident (name : String) : recording.evaluate (.ident default name) = lookUp name := by
  ext start events final value
  cases held : start.locals name with
  | none =>
      simp [evaluate, Semantics.value, operand, Semantics.read, held, lookUp, recording, valuesOf, perform,
        act]
  | some value =>
      simp [evaluate, Semantics.value, operand, Semantics.read, held, lookUp, Computation.pure_runs_iff]

/-- `name == null`. -/
def isNull (name : String) : Expr :=
  .binary default .equal (.ident default name) (.literal default .null)

theorem evaluate_isNull (name : String) :
    recording.evaluate (isNull name) =
      lookUp name >>= fun held => pure (if held = 0 then 1 else 0) := by
  simp [isNull, evaluate, Semantics.value, operand, recording, valuesOf, valueOf, perform]

theorem test_isNull (name : String) :
    recording.test (isNull name) = lookUp name >>= fun held => pure (decide (held = 0)) := by
  rw [test, evaluate_isNull, bind_assoc]
  congr 1
  funext held
  rw [pure_bind]
  by_cases zero : held = 0 <;> simp [zero, recording]

theorem decided_isNull (name : String) :
    recording.decided name (isNull name) = fun held => pure (decide (held = 0)) := by
  funext held
  rw [decided, applied, evaluate_isNull, Computation.withLocal_bind fun _ => .pure _,
    withLocal_lookUp, pure_bind, pure_bind]
  by_cases zero : held = 0 <;> simp [zero, recording]

theorem evaluate_negated_isNull (name : String) :
    recording.evaluate (isNull name).negated =
      lookUp name >>= fun held => pure (1 - if held = 0 then 1 else 0) := by
  simp [isNull, Expr.negated, Expr.operand, Expr.isPrimary, evaluate, Semantics.value, operand,
    recording, valuesOf, valueOf, perform]

theorem decided_negated_isNull (name : String) :
    recording.decided name (isNull name).negated = fun held => pure (!decide (held = 0)) := by
  funext held
  rw [decided, applied, evaluate_negated_isNull, Computation.withLocal_bind fun _ => .pure _,
    withLocal_lookUp, pure_bind, pure_bind]
  by_cases zero : held = 0 <;> simp [zero, recording]

/-- `name.Size`, which a number is itself. -/
def sizeMember (name : String) : Expr :=
  .member default (.ident default name) "Size" []

theorem evaluate_sizeMember (name : String) : recording.evaluate (sizeMember name) = lookUp name := by
  have target := evaluate_ident name
  rw [evaluate] at target
  rw [sizeMember, evaluate, operand, target]
  simp [Semantics.value, recording, valuesOf, valueOf, perform]

theorem applied_sizeMember (name : String) (argument : Nat) :
    recording.applied name (sizeMember name) argument = pure argument := by
  rw [applied, evaluate_sizeMember, withLocal_lookUp]

/-- `callee(arg)`. -/
def callOf (callee arg : String) : Expr :=
  .call default (.ident default callee) [.ident default arg]

theorem evaluate_callOf (callee arg : String) :
    recording.evaluate (callOf callee arg) =
      lookUp callee >>= fun first => lookUp arg >>= fun second => record [first, second] := by
  simp [callOf, evaluate, Semantics.value, operand, operands, recording, valuesOf, valueOf, perform]

/-- `foreach (var foo in bar) body`. -/
def loopOver (body : Stmt) : Loop :=
  ⟨default, default, "foo", default, .ident default "bar", body⟩

end Recording

end QueryLoop
