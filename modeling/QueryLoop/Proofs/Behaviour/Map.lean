import QueryLoop.Proofs.Binding.Parameter
import QueryLoop.Proofs.Behaviour.Recording

namespace QueryLoop

namespace Semantics

variable {Value World Event : Type} {sem : Semantics Value World Event}

theorem declare_nil {type : TypeRef} {rest : Computation (State Value World) Event (Exit Value)} :
    sem.declare type rest [] = rest := rfl

theorem eq_of_isEmptyDecl {stmt : Stmt} (emptyDecl : stmt.isEmptyDecl = true) :
    ∃ span type, stmt = .decl span ⟨type, []⟩ := by
  unfold Stmt.isEmptyDecl at emptyDecl
  split at emptyDecl
  · exact ⟨_, _, rfl⟩
  · simp at emptyDecl

theorem declared?_removeEmptyDecls {stmt : Stmt} (nonempty : stmt.isEmptyDecl = false) :
    stmt.removeEmptyDecls.1.declared? = stmt.declared? := by
  cases stmt with
  | decl span declared =>
      obtain ⟨type, declarators⟩ := declared
      cases declarators with
      | nil => simp [Stmt.isEmptyDecl] at nonempty
      | cons declarator declarators => simp only [Stmt.removeEmptyDecls]
  | _ => simp only [Stmt.removeEmptyDecls, Stmt.declared?]

mutual

/-- A declaration that declares nothing does nothing. -/
theorem run_removeEmptyDecls : ∀ stmt : Stmt, sem.run stmt.removeEmptyDecls.1 = sem.run stmt
  | .block _ stmts => by
      rw [Stmt.removeEmptyDecls, run, run, runIn_dropEmptyDecls stmts]
  | .decl _ ⟨_, []⟩ => by
      rw [Stmt.removeEmptyDecls, run, run, runIn, declare_nil]
  | .decl _ ⟨_, _ :: _⟩ => by
      simp only [Stmt.removeEmptyDecls]
  | .expr .. => by simp only [Stmt.removeEmptyDecls]
  | .ifThen _ cond body => by
      rw [Stmt.removeEmptyDecls, run, run, run_removeEmptyDecls body]
  | .ifElse _ cond body otherwise => by
      rw [Stmt.removeEmptyDecls, run, run, run_removeEmptyDecls body,
        run_removeEmptyDecls otherwise]
  | .foreach _ _ var _ seq body => by
      rw [Stmt.removeEmptyDecls, run, run, run_removeEmptyDecls body]
  | .whileLoop _ cond body => by
      rw [Stmt.removeEmptyDecls, run, run, run_removeEmptyDecls body]
  | .continueLoop _ => by simp only [Stmt.removeEmptyDecls]
  | .breakLoop _ => by simp only [Stmt.removeEmptyDecls]
  | .returnValue .. => by simp only [Stmt.removeEmptyDecls]
  | .empty _ => by simp only [Stmt.removeEmptyDecls]
  | .error _ => by simp only [Stmt.removeEmptyDecls]

theorem runIn_dropEmptyDecls :
    ∀ stmts : List Stmt, sem.runIn (Stmt.dropEmptyDecls stmts).1 = sem.runIn stmts
  | [] => by rw [Stmt.dropEmptyDecls]
  | stmt :: stmts => by
      rw [Stmt.dropEmptyDecls]
      cases emptyDecl : stmt.isEmptyDecl with
      | true =>
          simp only [if_true]
          obtain ⟨span, type, rfl⟩ := eq_of_isEmptyDecl emptyDecl
          rw [runIn_dropEmptyDecls stmts, runIn]
          rfl
      | false =>
          simp only [Bool.false_eq_true, if_false]
          rw [runIn, runIn, declared?_removeEmptyDecls emptyDecl, run_removeEmptyDecls stmt,
            runIn_dropEmptyDecls stmts]

end

/-- What a declared variable holds when the body goes on is all that is left of the
element, if nothing in its scope depends on the old variable. -/
theorem visit_declared {var name : String} {element : Value}
    {init : Computation (State Value World) Event Value}
    {rest : Computation (State Value World) Event (Exit Value)} (unseen : rest.Ignores var) :
    Elements.visit var (init >>= fun found => Computation.withLocal name found rest) element =
      Computation.withLocal var element init >>= Elements.visit name rest := by
  have ends : Computation.withLocal var element
        (init >>= fun found => Computation.withLocal name found rest) =
      Computation.withLocal var element init >>= fun found =>
        Computation.withLocal name found rest :=
    Computation.withLocal_bind fun found => .withLocal fun _ => unseen
  rw [Elements.visit, ends, bind_assoc]
  rfl

/-- A loop whose body only uses a projection of the element can run over the projected
elements. -/
theorem sameRuns_select {loop planned : Loop} {param : String} {projection : Expr}
    (seq : planned.seq = loop.seq.memberCall "Select" [.abstracted param projection])
    (projects : ∀ element, Elements.visit loop.var (sem.run loop.body) element =
      sem.applied param projection element >>=
        Elements.visit planned.var (sem.run planned.body)) :
    sem.SameRuns loop.toStmt planned.tidied := by
  have same : sem.run loop.toStmt = sem.run planned.tidied := by
    rw [Loop.tidied, run_removeEmptyDecls, Loop.toStmt, Loop.toStmt, run, run, seq,
      pipeline_select, Elements.loop_map, funext projects]
  intro start events final exit
  rw [same]

end Semantics

namespace Loop

variable {loop : Loop} {shape : Shape}

theorem map?_spec (found : loop.map? .textual = some shape) :
    ∃ span declSpan type name init headSpan others rest,
      loop.body = .block span
        (.decl declSpan ⟨type, ⟨name, some init, headSpan⟩ :: others⟩ :: rest) ∧
      Resolver.textual.references init loop.var = true ∧
      loop.var ∉ (others.filterMap Declarator.init).flatMap Expr.names ∧
      loop.var ∉ rest.flatMap Stmt.names ∧
      shape = .map name headSpan init.span := by
  unfold map? at found
  split at found
  · split at found
    · rename_i span declSpan type name init headSpan others rest blockOf
      simp only at found
      split at found
      · rename_i accepted
        simp only [Bool.and_eq_true, Bool.not_eq_true', List.any_eq_false] at accepted
        obtain ⟨⟨⟨used, unnamed⟩, unnamedRest⟩, unassigned⟩ := accepted
        refine ⟨span, declSpan, type, name, init, headSpan, others, rest, blockOf, used, ?_, ?_,
          (Option.some.inj found).symm⟩
        · intro named
          obtain ⟨expr, member, inExpr⟩ := List.mem_flatMap.mp named
          exact unnamed expr member (Resolver.references_textual_iff.mpr inExpr)
        · intro named
          obtain ⟨stmt, member, inStmt⟩ := List.mem_flatMap.mp named
          exact unnamedRest stmt member (Resolver.referencesIn_textual_iff.mpr inStmt)
      · simp at found
    · simp at found
  · simp at found

theorem plan_map {span declSpan headSpan : Span} {type : TypeRef} {name : String}
    {init lambda : Expr} {others : List Declarator} {rest : List Stmt} {options : ScanOptions}
    (blockOf : loop.body = .block span
      (.decl declSpan ⟨type, ⟨name, some init, headSpan⟩ :: others⟩ :: rest))
    (made : Resolver.textual.lambda? init loop.var options.lambdaParameter false = some lambda) :
    loop.plan (.map name headSpan init.span) .textual options =
      .ok { loop with
        type
        var := name
        seq := loop.seq.memberCall "Select" [lambda]
        body := .block span (.decl declSpan ⟨type, others⟩ :: rest) } := by
  rw [plan, planMap, blockOf]
  simp only [and_self, if_true, pipeline_textual made]

/-- The loop over the projected elements is always planned.  It runs like the loop that
declares the projection, although the old loop variable is no longer bound. -/
theorem map_plan_sameRuns (options : ScanOptions) (found : loop.map? .textual = some shape) :
    ∃ span declSpan type name init headSpan others rest param projection planned,
      loop.body = .block span
        (.decl declSpan ⟨type, ⟨name, some init, headSpan⟩ :: others⟩ :: rest) ∧
      Resolver.textual.lambda? init loop.var options.lambdaParameter false =
        some (.abstracted param projection) ∧
      loop.plan shape .textual options = .ok planned ∧
      planned.var = name ∧
      planned.seq = loop.seq.memberCall "Select" [.abstracted param projection] ∧
      planned.body = .block span (.decl declSpan ⟨type, others⟩ :: rest) ∧
      ∀ {Value World Event : Type} (sem : Semantics Value World Event),
        (∀ element, sem.applied param projection element =
          Computation.withLocal loop.var element (sem.evaluate init)) →
        sem.SameRuns loop.toStmt planned.tidied := by
  obtain ⟨span, declSpan, type, name, init, headSpan, others, rest, blockOf, used, unnamed,
    unnamedRest, rfl⟩ := map?_spec found
  obtain ⟨param, projection, made, -⟩ :=
    Resolver.lambda?_spec options.lambdaParameter false used
  refine ⟨span, declSpan, type, name, init, headSpan, others, rest, param, projection, _, blockOf,
    made, plan_map blockOf made, rfl, rfl, rfl, ?_⟩
  intro Value World Event sem computes
  -- behind the initializer, nothing depends on the old loop variable
  have unseen : (sem.declare type (sem.runIn rest) others).Ignores loop.var := by
    refine Semantics.declare_ignores ?_ fun _ => Semantics.runIn_ignores ?_
    · exact fun free => unnamed (Declarator.freeNamesIn_subset_names others free)
    · exact fun free => unnamedRest (Stmt.freeNamesIn_subset_names rest free)
  refine Semantics.sameRuns_select rfl fun element => ?_
  rw [computes, blockOf, Semantics.run, Semantics.runIn, Semantics.run, Semantics.runIn]
  exact Semantics.visit_declared unseen

open Recording

/-- `foreach (var foo in bar) { var y = foo.Size, z = y; A(z); }` -/
theorem map_plan_sameRuns_two_declarators :
    let loop := loopOver (.block default
      [.decl default ⟨default, [⟨"y", some (sizeMember "foo"), default⟩,
        ⟨"z", some (.ident default "y"), default⟩]⟩,
      .expr default (callOf "A" "z")])
    ∃ shape planned, loop.map? .textual = some shape ∧
      loop.plan shape .textual { } = .ok planned ∧
      Semantics.recording.SameRuns loop.toStmt planned.tidied := by
  intro loop
  have found : loop.map? .textual = some (.map "y" default default) := by decide
  obtain ⟨span, declSpan, type, name, init, headSpan, others, rest, param, projection, planned,
    blockOf, made, plans, -, -, -, same⟩ := map_plan_sameRuns { } found
  refine ⟨_, planned, found, plans, same _ fun element => ?_⟩
  cases blockOf
  obtain ⟨rfl, rfl⟩ : "x" = param ∧ sizeMember "x" = projection :=
    Expr.eq_of_abstracted_eq (Option.some.inj made)
  rw [applied_sizeMember, evaluate_sizeMember]
  exact withLocal_lookUp.symm

end Loop

end QueryLoop
