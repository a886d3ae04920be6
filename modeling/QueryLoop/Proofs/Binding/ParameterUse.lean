import QueryLoop.Proofs.Binding.Parameter

namespace QueryLoop

variable {var param name : String} {expr : Expr}

namespace Expr

/-- Some use of `var` stands apart from all lambdas that bind `var` or `param`. -/
inductive UsesApart (var param : String) : Expr → Prop
  | ident (span : Span) : UsesApart var param (ident span var)
  | part {expr part : Expr} (inside : part ∈ expr.parts) (notVar : expr.binder? ≠ some var)
      (notParam : expr.binder? ≠ some param) (uses : UsesApart var param part) :
      UsesApart var param expr

theorem usesApart_iff : expr.UsesApart var param ↔ expr.name? = some var ∨
    (expr.binder? ≠ some var ∧ expr.binder? ≠ some param) ∧
      ∃ part ∈ expr.parts, part.UsesApart var param := by
  constructor
  · intro uses
    cases uses with
    | ident span => exact .inl rfl
    | part inside notVar notParam uses => exact .inr ⟨⟨notVar, notParam⟩, _, inside, uses⟩
  · rintro (named | ⟨⟨notVar, notParam⟩, part, inside, uses⟩)
    · cases expr <;> simp only [name?, Option.some.injEq, reduceCtorEq] at named
      exact named ▸ .ident _
    · exact .part inside notVar notParam uses

theorem capturesIn_iff {exprs : List Expr} :
    CapturesIn var param exprs ↔ ∃ expr ∈ exprs, expr.Captures var param := by
  induction exprs with
  | nil => simp [CapturesIn]
  | cons expr exprs ih => simp [CapturesIn, ih]

theorem captures_iff : expr.Captures var param ↔ expr.binder? ≠ some var ∧
    ∃ part ∈ expr.parts,
      (expr.binder? = some param ∧ var ∈ part.freeNames) ∨ part.Captures var param := by
  cases expr <;> simp [Captures, binder?, parts, capturesIn_iff]

/-- A use apart from the lambdas that bind the variable is free. -/
theorem UsesApart.mem_freeNames (uses : expr.UsesApart var param) : var ∈ expr.freeNames := by
  induction uses with
  | ident span => simp [freeNames]
  | part inside notVar notParam uses ih =>
      exact mem_freeNames_iff.mpr (.inr ⟨notVar, _, inside, ih⟩)

/-- Where no lambda takes a use over, every free use stands apart. -/
theorem usesApart_of_not_captures (free : var ∈ expr.freeNames)
    (uncaptured : ¬expr.Captures var param) : expr.UsesApart var param := by
  induction expr using parts_induction with
  | step expr ih =>
      rw [captures_iff] at uncaptured
      rw [usesApart_iff]
      refine (mem_freeNames_iff.mp free).imp_right fun ⟨notVar, part, inside, free⟩ => ?_
      refine ⟨⟨notVar, fun bound => ?_⟩, part, inside, ih part inside free fun captured => ?_⟩
      · exact uncaptured ⟨notVar, part, inside, .inl ⟨bound, free⟩⟩
      · exact uncaptured ⟨notVar, part, inside, .inr captured⟩

end Expr

namespace Resolver

/-- The parameter gets the uses that stand apart, and no others. -/
theorem mem_freeNames_renamed_iff (fresh : param ∈ expr.freeNames → param = var) :
    param ∈ (textual.renamed var param expr).freeNames ↔ expr.UsesApart var param := by
  induction expr using Expr.parts_induction with
  | step expr ih =>
      rw [Expr.mem_freeNames_iff, Expr.usesApart_iff, name?_renamed, binder?_renamed,
        parts_renamed]
      have named : (if expr.name? = some var then some param else expr.name?) = some param ↔
          expr.name? = some var := by
        split
        · simpa using ‹_›
        · refine ⟨fun same => ?_, fun same => absurd same ‹_›⟩
          rw [← fresh (Expr.mem_freeNames_iff.mpr (.inl same))]
          exact same
      rw [named, and_comm (a := expr.binder? ≠ some var), and_assoc]
      refine or_congr_right (and_congr_right fun notParam => ?_)
      have freshPart : ∀ part ∈ expr.parts, param ∈ part.freeNames → param = var :=
        fun part inside free =>
          fresh (Expr.mem_freeNames_iff.mpr (.inr ⟨notParam, part, inside, free⟩))
      by_cases hidden : expr.binder? = some var
      · -- nothing is renamed here, so a use of the parameter would be one of the old body
        rw [if_pos hidden]
        refine iff_of_false ?_ fun kept => kept.1 hidden
        rintro ⟨part, inside, free⟩
        exact notParam (freshPart part inside free ▸ hidden)
      · rw [if_neg hidden, and_iff_right hidden]
        simp only [List.mem_map, exists_exists_and_eq_and]
        exact exists_congr fun part => and_congr_right fun inside =>
          ih part inside (freshPart part inside)

theorem mem_freeNames_of_lambda? {preferred : String} {negate : Bool} {lambda : Expr}
    (made : textual.lambda? expr var preferred negate = some lambda) :
    ∃ body, lambda = .abstracted (textual.parameterFor expr var preferred) body ∧
      (textual.parameterFor expr var preferred ∈ body.freeNames ↔
        expr.UsesApart var (textual.parameterFor expr var preferred)) ∧
      var ∈ expr.names := by
  unfold lambda? at made
  split at made
  · rename_i used
    simp only [Option.some.injEq] at made
    refine ⟨_, made.symm, ?_, references_textual_iff.mp used⟩
    rw [← mem_freeNames_renamed_iff fun free => ?_]
    · split
      · rw [Expr.freeNames_negated]
      · rfl
    · by_contra other
      exact parameterFor_ne free other rfl
  · simp at made

end Resolver

namespace Loop

/-- The method a shape adds to the sequence, and the expression of the loop that its
lambda is made from. -/
def stage? (loop : Loop) : Shape → Option (String × Expr)
  | .filterIf .. => loop.body.loneIf?.map fun (cond, _) => ("Where", cond)
  | .filterIfContinue .. =>
      match loop.body with
      | .block _ (first :: _) => first.branches?.map fun (cond, _) => ("Where", cond)
      | _ => none
  | .map .. =>
      match loop.body with
      | .block _ (.decl _ ⟨_, ⟨_, some init, _⟩ :: _⟩ :: _) => some ("Select", init)
      | _ => none

variable {resolver : Resolver} {options : ScanOptions} {loop planned : Loop} {shape : Shape}

theorem lambda?_of_pipeline {method : String} {stage seq : Expr} {negate : Bool}
    (made : loop.pipeline method stage negate resolver options = .ok seq) :
    ∃ lambda, resolver.lambda? stage (resolver.loopVariable loop) options.lambdaParameter negate =
        some lambda ∧ seq = loop.seq.memberCall method [lambda] := by
  unfold pipeline at made
  split at made
  · simp at made
  · exact ⟨_, ‹_›, (Except.ok.inj made).symm⟩

/-- A plan puts one stage behind the sequence. -/
theorem exists_stage_of_plan (plans : loop.plan shape resolver options = .ok planned) :
    ∃ method stage negate, loop.stage? shape = some (method, stage) ∧
      loop.pipeline method stage negate resolver options = .ok planned.seq := by
  cases shape with
  | filterIf condition survivingBody =>
      simp only [plan, planFilterIf] at plans
      repeat' split at plans
      all_goals simp only [reduceCtorEq, Except.ok.injEq] at plans
      rename_i cond body lone place _ seq made
      exact ⟨"Where", cond, false, by simp [stage?, lone], by rw [made, ← plans]⟩
  | filterIfContinue condition guard =>
      simp only [plan, planFilterIfContinue] at plans
      repeat' split at plans
      all_goals simp only [reduceCtorEq, Except.ok.injEq] at plans
      rename_i span first rest blockOf _ cond body otherwise parts place _ seq made
      exact ⟨"Where", cond, true, by simp [stage?, blockOf, parts], by rw [made, ← plans]⟩
  | map newVariable declarator source =>
      simp only [plan, planMap] at plans
      repeat' split at plans
      all_goals simp only [reduceCtorEq, Except.ok.injEq] at plans
      rename_i span stmts declSpan type rest declarators name init headSpan others blockOf place _
        seq made
      exact ⟨"Select", init, false, by simp [stage?, blockOf], by rw [made, ← plans]⟩

/-- The lambda of a planned stage uses its parameter exactly if the condition or the
initializer uses the loop variable apart from lambdas that bind one of the two names.
Only a mention of the loop variable is sure: it need not be free, and a free one may be
captured. -/
theorem plan_parameter_free_iff (plans : loop.plan shape .textual options = .ok planned) :
    ∃ method stage param body, loop.stage? shape = some (method, stage) ∧
      param = Resolver.textual.parameterFor stage loop.var options.lambdaParameter ∧
      planned.seq = loop.seq.memberCall method [.abstracted param body] ∧
      loop.var ∈ stage.names ∧
      (param ∈ body.freeNames ↔ stage.UsesApart loop.var param) ∧
      (stage.UsesApart loop.var param → loop.var ∈ stage.freeNames) ∧
      (loop.var ∈ stage.freeNames → ¬stage.Captures loop.var param →
        stage.UsesApart loop.var param) := by
  obtain ⟨method, stage, negate, staged, piped⟩ := exists_stage_of_plan plans
  obtain ⟨lambda, made, seq_eq⟩ := lambda?_of_pipeline piped
  obtain ⟨body, rfl, free_iff, mentioned⟩ := Resolver.mem_freeNames_of_lambda? made
  exact ⟨method, stage, _, body, staged, rfl, seq_eq, mentioned, free_iff,
    fun uses => uses.mem_freeNames, Expr.usesApart_of_not_captures⟩

/-- `foreach (var foo in bar) { if (callee(foo => foo.Ok)) F(); }` -/
def shadowing (callee : Expr) : Loop where
  span := default
  type := ⟨["var"], [], default⟩
  var := "foo"
  varSpan := default
  seq := .ident default "bar"
  body := .ifThen default
    (.call default callee [.lambda default "foo" (.member default (.ident default "foo") "Ok" [])])
    (.expr default (.call default (.ident default "F") []))

/-- `foreach (var foo in bar) { if (foo.Any(foo => foo.Ok)) F(); }`: one use stands apart
from the lambda. -/
theorem plan_parameter_free_beside_lambda :
    let loop := shadowing (.member default (.ident default "foo") "Any" [])
    ∃ shape planned, loop.plan shape .textual {} = .ok planned ∧
      ∃ method stage param body, loop.stage? shape = some (method, stage) ∧
        planned.seq = loop.seq.memberCall method [.abstracted param body] ∧
        param ∈ body.freeNames := by
  intro loop
  have plans : ∃ planned, loop.plan (.filterIf default default) .textual {} = .ok planned :=
    ⟨_, rfl⟩
  obtain ⟨planned, plans⟩ := plans
  obtain ⟨method, stage, param, body, staged, param_eq, seq_eq, -, free_iff, -, apart⟩ :=
    plan_parameter_free_iff plans
  refine ⟨_, planned, plans, method, stage, param, body, staged, seq_eq, free_iff.mpr ?_⟩
  cases staged
  subst param_eq
  exact apart (by decide) (by simp [Expr.Captures, Expr.CapturesIn, loop, shadowing])

/-- `foreach (var foo in bar) { if (Check(foo => foo.Ok)) F(); }`: the condition does not
depend on the loop variable, and neither does the lambda on its parameter. -/
theorem plan_parameter_not_free :
    let loop := shadowing (.ident default "Check")
    ∃ shape planned, loop.filterIf? .textual = some shape ∧
      loop.plan shape .textual {} = .ok planned ∧
      ∃ method stage param body, loop.stage? shape = some (method, stage) ∧
        planned.seq = loop.seq.memberCall method [.abstracted param body] ∧
        param ∉ body.freeNames ∧ loop.var ∉ stage.freeNames :=
  ⟨_, _, rfl, rfl, _, _, "x", _, rfl, rfl, by decide, by decide⟩

end Loop

end QueryLoop
