import Mathlib.Data.List.Basic
import Mathlib.Logic.Function.Basic

namespace QueryLoop

/-! Computations with local variables.

A computation is known by its finished runs: the state it starts in, the events it
makes one after another, the state it ends in and its result.  It may have several
runs from a state, or none.  `withLocal` runs a computation in the scope of a local
variable, and the main statement is how far such a scope reaches: it can end before
any computation that ignores the variable.
-/

structure Computation (State Event Result : Type) where
  runs : State → List Event → State → Result → Prop

namespace Computation

variable {State Event Result Other : Type}

@[ext] theorem ext {left right : Computation State Event Result}
    (same : ∀ start events final result,
      left.runs start events final result ↔ right.runs start events final result) :
    left = right := by
  cases left
  cases right
  rw [mk.injEq]
  funext start events final result
  exact propext (same start events final result)

instance : Monad (Computation State Event) where
  pure result := ⟨fun start events final found =>
    events = [] ∧ final = start ∧ found = result⟩
  bind first next := ⟨fun start events final result =>
    ∃ before after middle value, events = before ++ after ∧
      first.runs start before middle value ∧ (next value).runs middle after final result⟩

theorem pure_runs_iff {result found : Result} {start final : State} {events : List Event} :
    (pure result : Computation State Event Result).runs start events final found ↔
      events = [] ∧ final = start ∧ found = result :=
  Iff.rfl

protected theorem bind_pure (first : Computation State Event Result) :
    first >>= pure = first := by
  ext start events final result
  constructor
  · rintro ⟨before, _, middle, value, rfl, ran, rfl, rfl, rfl⟩
    rwa [List.append_nil]
  · intro ran
    exact ⟨events, [], final, result, (List.append_nil events).symm, ran, rfl, rfl, rfl⟩

protected theorem pure_bind (value : Other) (next : Other → Computation State Event Result) :
    pure value >>= next = next value := by
  ext start events final result
  constructor
  · rintro ⟨_, after, _, _, rfl, ⟨rfl, rfl, rfl⟩, ran⟩
    exact ran
  · intro ran
    exact ⟨[], events, start, value, rfl, ⟨rfl, rfl, rfl⟩, ran⟩

protected theorem bind_assoc {Third : Type} (first : Computation State Event Third)
    (second : Third → Computation State Event Other)
    (third : Other → Computation State Event Result) :
    first >>= second >>= third = first >>= fun value => second value >>= third := by
  ext start events final result
  constructor
  · rintro ⟨_, after, middle, value, rfl, ⟨before, between, early, found, rfl, ran, next⟩, last⟩
    exact ⟨before, between ++ after, early, found, List.append_assoc .., ran,
      between, after, middle, value, rfl, next, last⟩
  · rintro ⟨before, _, early, found, rfl, ran, between, after, middle, value, rfl, next, last⟩
    exact ⟨before ++ between, after, middle, value, (List.append_assoc ..).symm,
      ⟨before, between, early, found, rfl, ran, next⟩, last⟩

instance : LawfulMonad (Computation State Event) :=
  LawfulMonad.mk' _ Computation.bind_pure Computation.pure_bind Computation.bind_assoc

/-- No run at all. -/
def stuck : Computation State Event Result :=
  ⟨fun _ _ _ _ => False⟩

/-- The runs of `step` one after another, up to the first that has a result. -/
inductive Repeated (step : Computation State Event (Option Result)) :
    State → List Event → State → Result → Prop where
  | last {start events final result} (ran : step.runs start events final (some result)) :
      Repeated step start events final result
  | more {start before middle after final result} (ran : step.runs start before middle none)
      (others : Repeated step middle after final result) :
      Repeated step start (before ++ after) final result

def repeated (step : Computation State Event (Option Result)) : Computation State Event Result :=
  ⟨Repeated step⟩

/-- A step for each element in order, up to the first that has a result. -/
def each {Element : Type} (step : Element → Computation State Event (Option Result)) :
    List Element → Computation State Event (Option Result)
  | [] => pure none
  | element :: elements => do
      match ← step element with
      | some result => pure (some result)
      | none => each step elements

end Computation

/-- Local variables by name, and everything else. -/
@[ext] structure State (Value World : Type) where
  locals : String → Option Value
  world : World

namespace State

variable {Value World : Type} {state : State Value World} {name other : String}
  {value old : Option Value}

/-- A local variable gets a value, or goes away. -/
def set (state : State Value World) (name : String) (value : Option Value) :
    State Value World :=
  { state with locals := Function.update state.locals name value }

@[simp] theorem locals_set_self : (state.set name value).locals name = value :=
  Function.update_self ..

theorem locals_set_of_ne (different : other ≠ name) :
    (state.set name value).locals other = state.locals other :=
  Function.update_of_ne different ..

@[simp] theorem set_set : (state.set name old).set name value = state.set name value := by
  rw [set, set, set, Function.update_idem]

@[simp] theorem set_locals : state.set name (state.locals name) = state := by
  rw [set, Function.update_eq_self]

theorem set_comm (different : name ≠ other) :
    (state.set name old).set other value = (state.set other value).set name old := by
  rw [set, set, set, set, Function.update_comm different]

end State

namespace Computation

variable {Value World Event Result Other : Type} {name other : String} {value : Value}

/-- The computation in the scope of a new variable, which hides an older one of the
same name. -/
def withLocal (name : String) (value : Value) (inner : Computation (State Value World) Event Result) :
    Computation (State Value World) Event Result :=
  ⟨fun start events final result => ∃ last,
    inner.runs (start.set name (some value)) events last result ∧
      final = last.set name (start.locals name)⟩

/-- The computation neither changes the variable nor depends on it. -/
structure Ignores (inner : Computation (State Value World) Event Result) (name : String) :
    Prop where
  keeps {start events final result} (ran : inner.runs start events final result) :
    final.locals name = start.locals name
  moves {start events final result} (ran : inner.runs start events final result)
    (held : Option Value) :
    inner.runs (start.set name held) events (final.set name held) result

namespace Ignores

theorem pure (result : Result) :
    (Pure.pure result : Computation (State Value World) Event Result).Ignores name where
  keeps := by
    rintro start _ _ _ ⟨rfl, rfl, rfl⟩
    rfl
  moves := by
    rintro start _ _ _ ⟨rfl, rfl, rfl⟩ held
    exact ⟨rfl, rfl, rfl⟩

theorem stuck : (stuck : Computation (State Value World) Event Result).Ignores name where
  keeps := False.elim
  moves := False.elim

theorem bind {first : Computation (State Value World) Event Other}
    {next : Other → Computation (State Value World) Event Result} (ignored : first.Ignores name)
    (ignoredNext : ∀ found, (next found).Ignores name) : (first >>= next).Ignores name where
  keeps := by
    rintro start _ final result ⟨before, after, middle, found, rfl, ran, ranNext⟩
    rw [(ignoredNext found).keeps ranNext, ignored.keeps ran]
  moves := by
    rintro start _ final result ⟨before, after, middle, found, rfl, ran, ranNext⟩ held
    exact ⟨before, after, middle.set name held, found, rfl, ignored.moves ran held,
      (ignoredNext found).moves ranNext held⟩

/-- A variable is ignored outside of its own scope. -/
theorem withLocal_self (inner : Computation (State Value World) Event Result) :
    (withLocal name value inner).Ignores name where
  keeps := by
    rintro start events _ result ⟨last, _, rfl⟩
    exact State.locals_set_self
  moves := by
    rintro start events _ result ⟨last, ran, rfl⟩ held
    refine ⟨last, ?_, ?_⟩
    · rwa [State.set_set]
    · rw [State.locals_set_self, State.set_set]

theorem withLocal {inner : Computation (State Value World) Event Result}
    (ignored : other ≠ name → inner.Ignores name) :
    (Computation.withLocal other value inner).Ignores name := by
  by_cases same : other = name
  · rw [same]
    exact withLocal_self inner
  · have ignored := ignored same
    have different : name ≠ other := Ne.symm same
    constructor
    · rintro start events _ result ⟨last, ran, rfl⟩
      rw [State.locals_set_of_ne different, ignored.keeps ran, State.locals_set_of_ne different]
    · rintro start events _ result ⟨last, ran, rfl⟩ held
      refine ⟨last.set name held, ?_, ?_⟩
      · rw [State.set_comm different]
        exact ignored.moves ran held
      · rw [State.locals_set_of_ne same, State.set_comm same]

theorem repeated {step : Computation (State Value World) Event (Option Result)}
    (ignored : step.Ignores name) : (repeated step).Ignores name where
  keeps := by
    intro start events final result ran
    induction ran with
    | last ran => exact ignored.keeps ran
    | more ran _ ih => rw [ih, ignored.keeps ran]
  moves := by
    intro start events final result ran held
    induction ran with
    | last ran => exact .last (ignored.moves ran held)
    | more ran _ ih => exact .more (ignored.moves ran held) ih

theorem each {Element : Type}
    {step : Element → Computation (State Value World) Event (Option Result)}
    (ignored : ∀ element, (step element).Ignores name) (elements : List Element) :
    (each step elements).Ignores name := by
  induction elements with
  | nil => exact pure none
  | cons element elements ih =>
      refine bind (ignored element) fun found => ?_
      cases found with
      | none => exact ih
      | some result => exact pure (some result)

end Ignores

theorem withLocal_pure (result : Result) :
    withLocal name value (pure result : Computation (State Value World) Event Result) =
      pure result := by
  ext start events final found
  constructor
  · rintro ⟨_, ⟨rfl, rfl, rfl⟩, rfl⟩
    refine ⟨rfl, ?_, rfl⟩
    rw [State.set_set, State.set_locals]
  · rintro ⟨rfl, rfl, rfl⟩
    refine ⟨final.set name (some value), ⟨rfl, rfl, rfl⟩, ?_⟩
    rw [State.set_set, State.set_locals]

/-- A scope can end before what ignores its variable. -/
theorem withLocal_bind {first : Computation (State Value World) Event Other}
    {next : Other → Computation (State Value World) Event Result}
    (ignored : ∀ found, (next found).Ignores name) :
    withLocal name value (first >>= next) = withLocal name value first >>= next := by
  ext start events final result
  constructor
  · rintro ⟨last, ⟨before, after, middle, found, rfl, ran, ranNext⟩, rfl⟩
    exact ⟨before, after, middle.set name (start.locals name), found, rfl, ⟨middle, ran, rfl⟩,
      (ignored found).moves ranNext _⟩
  · rintro ⟨before, after, _, found, rfl, ⟨middle, ran, rfl⟩, ranNext⟩
    have kept := (ignored found).keeps ranNext
    rw [State.locals_set_self] at kept
    -- bring back what the variable held when its scope was about to end
    have ranInside := (ignored found).moves ranNext (middle.locals name)
    rw [State.set_set, State.set_locals] at ranInside
    refine ⟨final.set name (middle.locals name),
      ⟨before, after, middle, found, rfl, ran, ranInside⟩, ?_⟩
    rw [State.set_set, ← kept, State.set_locals]

/-- On each element, `apply` does what `inner` does with `var` bound to the element: the
same events, the same result, and the same to everything else than `var`, which still
holds the element afterwards. -/
def StandsFor (apply : Value → Computation (State Value World) Event Result) (var : String)
    (inner : Computation (State Value World) Event Result) : Prop :=
  ∀ element start events final result,
    inner.runs (start.set var (some element)) events final result ↔
      ∃ last, (apply element).runs start events last result ∧ final = last.set var (some element)

theorem withLocal_bind_of_standsFor
    {apply : Value → Computation (State Value World) Event Result} {var : String}
    {inner : Computation (State Value World) Event Result} (stands : StandsFor apply var inner)
    (ignored : ∀ element, (apply element).Ignores var)
    (next : Result → Computation (State Value World) Event Other) (element : Value) :
    withLocal var element (inner >>= next) =
      apply element >>= fun found => withLocal var element (next found) := by
  ext start events final result
  constructor
  · intro ran
    obtain ⟨last, ⟨before, after, middle, found, rfl, ranInner, ranNext⟩, rfl⟩ := ran
    obtain ⟨left, ranApply, rfl⟩ := (stands ..).mp ranInner
    refine ⟨before, after, left, found, rfl, ranApply, last, ranNext, ?_⟩
    rw [(ignored element).keeps ranApply]
  · intro ran
    obtain ⟨before, after, left, found, rfl, ranApply, last, ranNext, rfl⟩ := ran
    have ranInner := (stands ..).mpr ⟨left, ranApply, rfl⟩
    refine ⟨last, ⟨before, after, _, found, rfl, ranInner, ranNext⟩, ?_⟩
    rw [(ignored element).keeps ranApply]

end Computation

end QueryLoop
