import QueryLoop.Proofs.Binding.Parameter
import QueryLoop.Proofs.Behaviour.Recording

namespace QueryLoop

/-! Filters in front of a loop.

A loop whose body starts with a decision about the element runs the same over the
elements that a lambda lets through, provided the lambda decides like the condition.
For the lone `if` nothing else is needed.  For the guard that continues, the statements
of its `else` move up into the body, and their declarations reach further than before:
the loop means the same exactly if the statements behind the guard use no name that
is declared there.
-/

namespace Semantics

variable {Value World Event : Type} {sem : Semantics Value World Event}

/-- A loop whose body starts with a decision can leave it to the sequence.  An element
that is not taken must not end the loop. -/
theorem sameRuns_where {loop planned : Loop} {param : String} {predicate : Expr}
    {decision : Computation (State Value World) Event Bool} {skip : Exit Value}
    (var : planned.var = loop.var)
    (seq : planned.seq = loop.seq.memberCall "Where" [.abstracted param predicate])
    (absent : loop.var ∉ (Expr.abstracted param predicate).freeNames)
    (stands : Computation.StandsFor (sem.decided param predicate) loop.var decision)
    (goesOn : skip.ofBody? = none)
    (decides : sem.run loop.body = decision >>= fun kept =>
      if kept then sem.run planned.body else pure skip) :
    sem.SameRuns loop.toStmt planned.toStmt := by
  have ignored : ∀ element, (sem.decided param predicate element).Ignores loop.var :=
    fun element => decided_ignores absent
  have visits : ∀ element, Elements.visit loop.var (sem.run loop.body) element =
      sem.decided param predicate element >>= fun kept =>
        if kept then Elements.visit loop.var (sem.run planned.body) element else pure none := by
    intro element
    rw [Elements.visit, decides, Computation.withLocal_bind_of_standsFor stands ignored,
      bind_assoc]
    congr 1
    funext kept
    cases kept with
    | true => rfl
    | false =>
        simp only [Bool.false_eq_true, if_false]
        rw [Computation.withLocal_pure, pure_bind, goesOn]
  have same : sem.run loop.toStmt = sem.run planned.toStmt := by
    rw [Loop.toStmt, Loop.toStmt, run, run, var, seq, pipeline_where, Elements.loop_filter visits]
  intro start events final exit
  rw [same]

theorem run_of_loneIf? {stmt : Stmt} {cond : Expr} {body : Stmt}
    (found : stmt.loneIf? = some (cond, body)) :
    sem.run stmt = sem.test cond >>= fun holds => if holds then sem.run body else pure .normal := by
  unfold Stmt.loneIf? at found
  split at found
  · obtain ⟨rfl, rfl⟩ : _ = cond ∧ _ = body := by simpa using found
    rw [run]
  · obtain ⟨rfl, rfl⟩ : _ = cond ∧ _ = body := by simpa using found
    rw [run, runIn_singleton, run]
  · simp at found

end Semantics

namespace Loop

variable {loop : Loop} {shape : Shape}

theorem filterIf?_spec (found : loop.filterIf? .textual = some shape) :
    ∃ cond body, loop.body.loneIf? = some (cond, body) ∧
      Resolver.textual.references cond loop.var = true ∧
      shape = .filterIf cond.span body.span := by
  unfold filterIf? at found
  split at found
  · split at found
    · rename_i cond body lone
      split at found
      · rename_i used
        exact ⟨cond, body, lone, used, (Option.some.inj found).symm⟩
      · simp at found
    · simp at found
  · simp at found

theorem plan_filterIf {cond : Expr} {body : Stmt} {lambda : Expr} {options : ScanOptions}
    (lone : loop.body.loneIf? = some (cond, body))
    (made : Resolver.textual.lambda? cond loop.var options.lambdaParameter false = some lambda) :
    loop.plan (.filterIf cond.span body.span) .textual options =
      .ok { loop with seq := loop.seq.memberCall "Where" [lambda], body } := by
  rw [plan, planFilterIf, lone]
  simp only [and_self, if_true, pipeline_textual made]

/-- The loop over the elements with a true condition is always planned, and it runs like
the loop that tests the condition itself. -/
theorem filterIf_plan_sameRuns (options : ScanOptions)
    (found : loop.filterIf? .textual = some shape) :
    ∃ cond body param predicate planned,
      loop.body.loneIf? = some (cond, body) ∧
      Resolver.textual.lambda? cond loop.var options.lambdaParameter false =
        some (.abstracted param predicate) ∧
      loop.plan shape .textual options = .ok planned ∧
      planned.seq = loop.seq.memberCall "Where" [.abstracted param predicate] ∧
      planned.body = body ∧
      ∀ {Value World Event : Type} (sem : Semantics Value World Event),
        Computation.StandsFor (sem.decided param predicate) loop.var (sem.test cond) →
          sem.SameRuns loop.toStmt planned.toStmt := by
  obtain ⟨cond, body, lone, used, rfl⟩ := filterIf?_spec found
  obtain ⟨param, predicate, made, absent⟩ :=
    Resolver.lambda?_spec options.lambdaParameter false used
  refine ⟨cond, body, param, predicate, _, lone, made, plan_filterIf lone made, rfl, rfl, ?_⟩
  intro Value World Event sem stands
  exact Semantics.sameRuns_where rfl rfl absent stands rfl (Semantics.run_of_loneIf? lone)

/-- `foreach (var foo in bar) { if (foo == null) { A(foo); break; } }` -/
theorem filterIf_plan_sameRuns_break :
    let loop := Recording.loopOver (.block default [.ifThen default (Recording.isNull "foo")
      (.block default [.expr default (Recording.callOf "A" "foo"), .breakLoop default])])
    ∃ shape planned, loop.filterIf? .textual = some shape ∧
      loop.plan shape .textual { } = .ok planned ∧
      Semantics.recording.SameRuns loop.toStmt planned.toStmt := by
  intro loop
  have found : loop.filterIf? .textual = some (.filterIf default default) := by decide
  obtain ⟨cond, body, param, predicate, planned, lone, made, plans, -, -, same⟩ :=
    filterIf_plan_sameRuns { } found
  refine ⟨_, planned, found, plans, same _ ?_⟩
  obtain ⟨rfl, rfl⟩ : Recording.isNull "foo" = cond ∧ _ = body :=
    Prod.mk.inj (Option.some.inj lone)
  obtain ⟨rfl, rfl⟩ : "x" = param ∧ Recording.isNull "x" = predicate :=
    Expr.eq_of_abstracted_eq (Option.some.inj made)
  rw [Recording.decided_isNull, Recording.test_isNull]
  exact Recording.standsFor_lookUp

end Loop

namespace Stmt

variable {scope : String → Reference} {next : Nat}

theorem eq_of_branches? {stmt : Stmt} {cond : Expr} {body : Stmt} {otherwise : Option Stmt}
    (found : stmt.branches? = some (cond, body, otherwise)) :
    ∃ span, stmt = match otherwise with
      | none => .ifThen span cond body
      | some otherwise => .ifElse span cond body otherwise := by
  unfold branches? at found
  split at found
  · obtain ⟨rfl, rfl, rfl⟩ : _ = cond ∧ _ = body ∧ none = otherwise := by simpa using found
    exact ⟨_, rfl⟩
  · obtain ⟨rfl, rfl, rfl⟩ : _ = cond ∧ _ = body ∧ some _ = otherwise := by simpa using found
    exact ⟨_, rfl⟩
  · simp at found

theorem eq_of_isContinueBranch {stmt : Stmt} (isContinue : stmt.isContinueBranch = true) :
    ∃ span, stmt = .continueLoop span ∨ ∃ outer, stmt = .block outer [.continueLoop span] := by
  unfold isContinueBranch at isContinue
  split at isContinue
  · exact ⟨_, .inl rfl⟩
  · exact ⟨_, .inr ⟨_, rfl⟩⟩
  · simp at isContinue

theorem references_of_isContinueBranch {stmt : Stmt} (isContinue : stmt.isContinueBranch = true) :
    stmt.references scope next = [] := by
  obtain ⟨span, rfl | ⟨outer, rfl⟩⟩ := eq_of_isContinueBranch isContinue
  · rw [references]
  · rw [references, referencesIn, references, referencesIn]
    rfl

theorem variableCount_of_isContinueBranch {stmt : Stmt}
    (isContinue : stmt.isContinueBranch = true) : stmt.variableCount = 0 := by
  obtain ⟨span, rfl | ⟨outer, rfl⟩⟩ := eq_of_isContinueBranch isContinue
  · simp only [variableCount]
  · simp only [variableCount, variableCountIn, Nat.add_zero]

theorem flattened_some (stmt : Stmt) :
    (∃ span stmts, stmt = .block span stmts ∧ flattened (some stmt) = stmts) ∨
      flattened (some stmt) = [stmt] := by
  cases stmt with
  | block span stmts => exact .inl ⟨span, stmts, rfl, rfl⟩
  | _ => exact .inr rfl

theorem references_eq_flattened (otherwise : Stmt) :
    otherwise.references scope next = referencesIn scope next (flattened (some otherwise)) := by
  rcases flattened_some otherwise with ⟨span, stmts, rfl, opened⟩ | alone
  · rw [opened, references]
  · rw [alone, referencesIn, referencesIn, List.append_nil]

theorem variableCount_eq_flattened (otherwise : Stmt) :
    otherwise.variableCount = variableCountIn (flattened (some otherwise)) := by
  rcases flattened_some otherwise with ⟨span, stmts, rfl, opened⟩ | alone
  · rw [opened, variableCount]
  · rw [alone, variableCountIn, variableCountIn, Nat.add_zero]

/-- A guard takes the references of its condition and of the statements that move up. -/
theorem referencesIn_guard {guard body : Stmt} {cond : Expr} {otherwise : Option Stmt}
    {rest : List Stmt} (found : guard.branches? = some (cond, body, otherwise))
    (isContinue : body.isContinueBranch = true) :
    referencesIn scope next (guard :: rest) =
      cond.references scope 0 ++ (referencesIn scope next (flattened otherwise) ++
        referencesIn scope (next + variableCountIn (flattened otherwise)) rest) := by
  obtain ⟨span, rfl⟩ := eq_of_branches? found
  cases otherwise with
  | none =>
      simp only [referencesIn, references, references_of_isContinueBranch isContinue,
        variableCount, variableCount_of_isContinueBranch isContinue, flattened, variableCountIn,
        List.append_nil, List.nil_append, Nat.add_zero]
      rfl
  | some otherwise =>
      simp only [referencesIn, references, references_of_isContinueBranch isContinue,
        variableCount, variableCount_of_isContinueBranch isContinue, List.nil_append,
        Nat.add_zero, Nat.zero_add, List.append_assoc, ← references_eq_flattened,
        ← variableCount_eq_flattened]
      rfl

end Stmt

namespace Semantics

variable {Value World Event : Type} {sem : Semantics Value World Event}

theorem run_of_isContinueBranch {stmt : Stmt} (isContinue : stmt.isContinueBranch = true) :
    sem.run stmt = pure .continued := by
  obtain ⟨span, rfl | ⟨outer, rfl⟩⟩ := Stmt.eq_of_isContinueBranch isContinue
  · rw [run]
  · rw [run, runIn_singleton, run]

theorem run_eq_flattened (otherwise : Stmt) :
    sem.run otherwise = sem.runIn (Stmt.flattened (some otherwise)) := by
  rcases Stmt.flattened_some otherwise with ⟨span, stmts, rfl, opened⟩ | alone
  · rw [opened, run]
  · rw [alone, runIn_singleton]

theorem run_of_branches? {guard body : Stmt} {cond : Expr} {otherwise : Option Stmt}
    (found : guard.branches? = some (cond, body, otherwise)) :
    sem.run guard = sem.test cond >>= fun holds =>
      if holds then sem.run body else sem.runIn (Stmt.flattened otherwise) := by
  obtain ⟨span, rfl⟩ := Stmt.eq_of_branches? found
  cases otherwise with
  | none => rw [run, Stmt.flattened, runIn]
  | some otherwise => rw [run, ← run_eq_flattened otherwise]

/-- The statements behind the guard belong to the branch that does not continue. -/
theorem runIn_guard {guard body : Stmt} {cond : Expr} {otherwise : Option Stmt}
    {rest : List Stmt} (found : guard.branches? = some (cond, body, otherwise))
    (isContinue : body.isContinueBranch = true)
    (separate : ∀ name ∈ Stmt.declaredNamesIn (Stmt.flattened otherwise),
      name ∉ Stmt.freeNamesIn rest) :
    sem.runIn (guard :: rest) = sem.test cond >>= fun holds =>
      if holds then pure .continued else sem.runIn (Stmt.flattened otherwise ++ rest) := by
  have undeclared : guard.declared? = none := by
    obtain ⟨span, rfl⟩ := Stmt.eq_of_branches? found
    cases otherwise <;> rfl
  rw [runIn, undeclared]
  refine Eq.trans (congrArg (Exit.andThen · _) (run_of_branches? found)) ?_
  rw [Exit.bind_andThen]
  congr 1
  funext holds
  cases holds with
  | true =>
      simp only [if_true, run_of_isContinueBranch isContinue]
      exact Exit.pure_andThen_of_ne (by simp)
  | false =>
      simp only [Bool.false_eq_true, if_false]
      exact (runIn_append separate).symm

end Semantics

namespace Loop

variable {loop : Loop} {shape : Shape}

theorem filterIfContinue?_spec (found : loop.filterIfContinue? .textual = some shape) :
    ∃ span guard rest cond body otherwise, loop.body = .block span (guard :: rest) ∧
      guard.branches? = some (cond, body, otherwise) ∧ body.isContinueBranch = true ∧
      Resolver.textual.references cond loop.var = true ∧
      shape = .filterIfContinue cond.span guard.span := by
  unfold filterIfContinue? at found
  split at found
  · split at found
    · rename_i span guard second others blockOf
      split at found
      · rename_i cond body otherwise parts
        split at found
        · rename_i accepted
          rw [Bool.and_eq_true] at accepted
          exact ⟨span, guard, second :: others, cond, body, otherwise, blockOf, parts,
            accepted.1, accepted.2, (Option.some.inj found).symm⟩
        · simp at found
      · simp at found
    · simp at found
  · simp at found

theorem plan_filterIfContinue {span : Span} {guard body : Stmt} {rest : List Stmt} {cond : Expr}
    {otherwise : Option Stmt} {lambda : Expr} {options : ScanOptions}
    (blockOf : loop.body = .block span (guard :: rest))
    (parts : guard.branches? = some (cond, body, otherwise))
    (isContinue : body.isContinueBranch = true)
    (made : Resolver.textual.lambda? cond loop.var options.lambdaParameter true = some lambda) :
    loop.plan (.filterIfContinue cond.span guard.span) .textual options =
      .ok { loop with
        seq := loop.seq.memberCall "Where" [lambda]
        body := .block span (Stmt.flattened otherwise ++ rest) } := by
  rw [plan, planFilterIfContinue, blockOf]
  simp only [parts, isContinue, and_self, if_true, pipeline_textual made]

/-- What names mean in the body of the loop. -/
def bodyScope (loop : Loop) : String → Reference :=
  Function.update .outer loop.var (.declared 0)

theorem lt_one_of_bodyScope {name : String} {number : Nat}
    (known : loop.bodyScope name = .declared number) : number < 1 := by
  unfold bodyScope at known
  by_cases same : name = loop.var
  · rw [same, Function.update_self, Reference.declared.injEq] at known
    omega
  · rw [Function.update_of_ne same] at known
    simp at known

/-- Opening the `else` of a guard keeps what every identifier of the body refers to
exactly if no name declared in it is used behind the guard, and then the loop over the
remaining elements runs like the loop with the guard. -/
theorem filterIfContinue_plan_references_iff_sameRuns (options : ScanOptions)
    (found : loop.filterIfContinue? .textual = some shape) :
    ∃ span guard rest cond body otherwise param predicate planned,
      loop.body = .block span (guard :: rest) ∧
      guard.branches? = some (cond, body, otherwise) ∧
      body.isContinueBranch = true ∧
      Resolver.textual.lambda? cond loop.var options.lambdaParameter true =
        some (.abstracted param predicate) ∧
      loop.plan shape .textual options = .ok planned ∧
      planned.seq = loop.seq.memberCall "Where" [.abstracted param predicate] ∧
      planned.body = .block span (Stmt.flattened otherwise ++ rest) ∧
      (loop.body.references loop.bodyScope 1 =
          cond.references loop.bodyScope 0 ++ planned.body.references loop.bodyScope 1 ↔
        ∀ name ∈ Stmt.declaredNamesIn (Stmt.flattened otherwise),
          name ∉ Stmt.freeNamesIn rest) ∧
      ((∀ name ∈ Stmt.declaredNamesIn (Stmt.flattened otherwise),
          name ∉ Stmt.freeNamesIn rest) →
        ∀ {Value World Event : Type} (sem : Semantics Value World Event),
          Computation.StandsFor (sem.decided param predicate) loop.var
              (Bool.not <$> sem.test cond) →
            sem.SameRuns loop.toStmt planned.toStmt) := by
  obtain ⟨span, guard, rest, cond, body, otherwise, blockOf, parts, isContinue, used, rfl⟩ :=
    filterIfContinue?_spec found
  obtain ⟨param, predicate, made, absent⟩ :=
    Resolver.lambda?_spec options.lambdaParameter true used
  refine ⟨span, guard, rest, cond, body, otherwise, param, predicate, _, blockOf, parts,
    isContinue, made, plan_filterIfContinue blockOf parts isContinue made, rfl, rfl, ?_, ?_⟩
  · rw [blockOf, Stmt.references, Stmt.references, Stmt.referencesIn_guard parts isContinue,
      List.append_cancel_left_eq, eq_comm,
      Stmt.referencesIn_append_eq_iff fun _ _ known => lt_one_of_bodyScope known]
  · intro separate Value World Event sem stands
    have decides : sem.run loop.body = (Bool.not <$> sem.test cond) >>= fun kept =>
        if kept then sem.run (.block span (Stmt.flattened otherwise ++ rest))
        else pure .continued := by
      rw [blockOf, Semantics.run, Semantics.run,
        Semantics.runIn_guard parts isContinue separate, bind_map_left]
      congr 1
      funext holds
      cases holds with
      | true => rfl
      | false => rfl
    exact Semantics.sameRuns_where rfl rfl absent stands rfl decides

end Loop

namespace Recording

/-- `foreach (var foo in bar) { if (foo == null) continue; else { var t = foo; A(t); } B(arg); }` -/
def guarded (arg : String) : Loop :=
  loopOver (.block default
    [.ifElse default (isNull "foo") (.continueLoop default) (.block default
      [.decl default ⟨default, [⟨"t", some (.ident default "foo"), default⟩]⟩,
        .expr default (callOf "A" "t")]),
    .expr default (callOf "B" arg)])

theorem standsFor_negated_isNull :
    Computation.StandsFor (Semantics.recording.decided "x" (isNull "x").negated) "foo"
      (Bool.not <$> Semantics.recording.test (isNull "foo")) := by
  rw [decided_negated_isNull, test_isNull, map_bind]
  simp only [map_pure]
  exact standsFor_lookUp

/-- The planned loop for a guard with `B(t)` behind it. -/
def opened : Loop :=
  { guarded "t" with
    seq := (guarded "t").seq.memberCall "Where" [.abstracted "x" (isNull "x").negated]
    body := .block default
      [.decl default ⟨default, [⟨"t", some (.ident default "foo"), default⟩]⟩,
        .expr default (callOf "A" "t"), .expr default (callOf "B" "t")] }

/-- Every outer name holds two. -/
def twos : Memory :=
  ⟨fun _ => none, fun _ => 2⟩

theorem guarded_runs : ∃ final exit,
    (Semantics.recording.run (guarded "t").toStmt).runs twos [[2, 1], [2, 2]] final exit := by
  simp [-bind_pure_comp, twos, guarded, loopOver, Loop.toStmt, Semantics.run, Semantics.runIn,
    Semantics.declare, Semantics.initialized, Semantics.pipeline, Semantics.elementsOf,
    Elements.visit, Elements.loop, Elements.step, Computation.each, Computation.pure_runs_iff,
    Exit.andThen, Exit.ofBody?, Stmt.declared?, State.set, Function.update, List.range_succ,
    evaluate_ident, evaluate_callOf, test_isNull, elements_recording]

theorem not_opened_runs {final : Memory} {exit : Exit Nat} :
    ¬(Semantics.recording.run opened.toStmt).runs twos [[2, 1], [2, 2]] final exit := by
  intro ran
  simp [-bind_pure_comp, twos, opened, guarded, loopOver, Loop.toStmt, Semantics.run,
    Semantics.runIn, Semantics.declare, Semantics.initialized, Semantics.pipeline_where,
    Semantics.pipeline, Semantics.elementsOf, Elements.visit, Elements.loop, Elements.step,
    Elements.filter, Computation.each, Exit.andThen, Exit.ofBody?, Stmt.declared?, State.set,
    Function.update, List.range_succ, evaluate_ident, evaluate_callOf, decided_negated_isNull,
    elements_recording] at ran

end Recording

namespace Loop

open Recording

theorem filterIfContinue_plan_sameRuns_separate :
    ∃ shape planned, (guarded "foo").filterIfContinue? .textual = some shape ∧
      (guarded "foo").plan shape .textual { } = .ok planned ∧
      Semantics.recording.SameRuns (guarded "foo").toStmt planned.toStmt := by
  have found : (guarded "foo").filterIfContinue? .textual =
      some (.filterIfContinue default default) := by decide
  obtain ⟨span, guard, rest, cond, body, otherwise, param, predicate, planned, blockOf, parts, -,
    made, plans, -, -, -, same⟩ := filterIfContinue_plan_references_iff_sameRuns { } found
  refine ⟨_, planned, found, plans, ?_⟩
  cases blockOf
  cases parts
  obtain ⟨rfl, rfl⟩ : "x" = param ∧ (isNull "x").negated = predicate :=
    Expr.eq_of_abstracted_eq (Option.some.inj made)
  refine same ?_ _ standsFor_negated_isNull
  decide

/-- Behind the guard, `t` was an outer variable; in the planned loop it is the local of
the opened block. -/
theorem filterIfContinue_plan_captures :
    ∃ shape, (guarded "t").filterIfContinue? .textual = some shape ∧
      (guarded "t").plan shape .textual { } = .ok opened ∧
      Computation.StandsFor (Semantics.recording.decided "x" (isNull "x").negated) "foo"
        (Bool.not <$> Semantics.recording.test (isNull "foo")) ∧
      (guarded "t").body.references (guarded "t").bodyScope 1 ≠
        (isNull "foo").references (guarded "t").bodyScope 0 ++
          opened.body.references (guarded "t").bodyScope 1 ∧
      ¬Semantics.recording.SameRuns (guarded "t").toStmt opened.toStmt := by
  refine ⟨_, rfl, rfl, standsFor_negated_isNull, by decide, fun same => ?_⟩
  obtain ⟨final, exit, ran⟩ := guarded_runs
  exact not_opened_runs ((same ..).mp ran)

end Loop

end QueryLoop
