import QueryLoop.Proofs.Behaviour.Semantics

namespace QueryLoop

namespace Elements

variable {Value World Event : Type} {elements : Elements Value World Event} {name : String}

structure Ignores (elements : Elements Value World Event) (name : String) : Prop where
  source : elements.source.Ignores name
  stage (element : Value) : (elements.stage element).Ignores name

theorem filter_ignores {keep : Value → Computation (State Value World) Event Bool}
    (ignored : elements.Ignores name) (ignoredKeep : ∀ element, (keep element).Ignores name) :
    (elements.filter keep).Ignores name where
  source := ignored.source
  stage element := by
    refine (ignored.stage element).bind fun found => ?_
    cases found with
    | none => exact .pure none
    | some found => exact (ignoredKeep found).bind fun kept => .pure _

theorem map_ignores {project : Value → Computation (State Value World) Event Value}
    (ignored : elements.Ignores name) (ignoredProject : ∀ element, (project element).Ignores name) :
    (elements.map project).Ignores name where
  source := ignored.source
  stage element := by
    refine (ignored.stage element).bind fun found => ?_
    cases found with
    | none => exact .pure none
    | some found => exact (ignoredProject found).bind fun projected => .pure _

theorem visit_ignores {var : String} {element : Value}
    {body : Computation (State Value World) Event (Exit Value)}
    (ignored : var ≠ name → body.Ignores name) : (visit var body element).Ignores name :=
  .bind (.withLocal ignored) fun _ => .pure _

theorem loop_ignores
    {body : Value → Computation (State Value World) Event (Option (Exit Value))}
    (ignored : elements.Ignores name) (ignoredBody : ∀ element, (body element).Ignores name) :
    (elements.loop body).Ignores name := by
  refine ignored.source.bind fun values => .bind (.each (fun element => ?_) values) fun _ => .pure _
  refine (ignored.stage element).bind fun found => ?_
  cases found with
  | none => exact .pure none
  | some found => exact ignoredBody found

end Elements

theorem Exit.andThen_ignores {Value World Event : Type} {name : String}
    {first rest : Computation (State Value World) Event (Exit Value)}
    (ignored : first.Ignores name) (ignoredRest : rest.Ignores name) :
    (Exit.andThen first rest).Ignores name := by
  refine ignored.bind fun exit => ?_
  cases exit with
  | normal => exact ignoredRest
  | broken => exact .pure _
  | continued => exact .pure _
  | returned value => exact .pure _

namespace Semantics

variable {Value World Event : Type} {sem : Semantics Value World Event} {name other : String}

theorem read_ignores (different : other ≠ name) : (sem.read other).Ignores name where
  keeps := by
    intro start events final value ran
    cases held : start.locals other with
    | some _ =>
        simp only [read, held] at ran
        exact (Computation.Ignores.pure _).keeps ran
    | none =>
        simp only [read, held] at ran
        exact (sem.operate_ignores (by simp)).keeps ran
  moves := by
    intro start events final value ran moved
    have same : (start.set name moved).locals other = start.locals other :=
      State.locals_set_of_ne different
    cases held : start.locals other with
    | some _ =>
        simp only [read, same, held] at ran ⊢
        exact (Computation.Ignores.pure _).moves ran moved
    | none =>
        simp only [read, same, held] at ran ⊢
        exact (sem.operate_ignores (by simp)).moves ran moved

theorem write_ignores {value : Value} (different : other ≠ name) :
    (sem.write other value).Ignores name := by
  have outer : (sem.operate (.writeOuter other) [.computed (pure value)]).Ignores name := by
    refine sem.operate_ignores fun operand member => ?_
    rw [List.mem_singleton.mp member]
    exact .pure value
  constructor
  · intro start events final result ran
    cases held : start.locals other with
    | some _ =>
        simp only [write, held] at ran
        rw [ran.2.1, State.locals_set_of_ne different.symm]
    | none =>
        simp only [write, held] at ran
        exact outer.keeps ran
  · intro start events final result ran moved
    have same : (start.set name moved).locals other = start.locals other :=
      State.locals_set_of_ne different
    cases held : start.locals other with
    | some _ =>
        simp only [write, same, held] at ran ⊢
        exact ⟨ran.1, by rw [ran.2.1, State.set_comm different], ran.2.2⟩
    | none =>
        simp only [write, same, held] at ran ⊢
        exact outer.moves ran moved

theorem value_ignores {operand : Operand Value World Event} (ignored : operand.Ignores name) :
    (sem.value operand).Ignores name := by
  have operated : (sem.operate .valueOf [operand]).Ignores name :=
    sem.operate_ignores fun found member => List.mem_singleton.mp member ▸ ignored
  cases operand with
  | computed value => exact ignored
  | named other => exact read_ignores ignored
  | member target found typeArgs => exact operated
  | element target position => exact operated
  | function apply => exact operated

theorem assign_ignores {source target : Operand Value World Event}
    (ignoredSource : source.Ignores name) (ignoredTarget : target.Ignores name) :
    (sem.assign source target).Ignores name := by
  have operated : (sem.operate .assign [target, source]).Ignores name := by
    refine sem.operate_ignores fun operand member => ?_
    rcases List.mem_cons.mp member with rfl | later
    · exact ignoredTarget
    · rw [List.mem_singleton.mp later]
      exact ignoredSource
  cases target with
  | computed value => exact operated
  | named other =>
      exact (value_ignores ignoredSource).bind fun found => write_ignores ignoredTarget
  | member target found typeArgs => exact operated
  | element target position => exact operated
  | function apply => exact operated

mutual

theorem operand_ignores :
    ∀ {expr : Expr}, name ∉ expr.freeNames → (sem.operand expr).Ignores name
  | .literal .., _ => by
      rw [operand]
      exact sem.operate_ignores (by simp)
  | .ident _ other, absent => by
      rw [Expr.freeNames, List.mem_singleton] at absent
      rw [operand]
      exact Ne.symm absent
  | .member _ target _ _, absent => by
      rw [Expr.freeNames] at absent
      rw [operand]
      exact value_ignores (operand_ignores absent)
  | .call _ callee args, absent => by
      rw [Expr.freeNames, List.mem_append, not_or] at absent
      rw [operand]
      refine sem.operate_ignores fun found member => ?_
      rcases List.mem_cons.mp member with rfl | later
      · exact operand_ignores absent.1
      · exact operands_ignores absent.2 found later
  | .index _ target position, absent => by
      rw [Expr.freeNames, List.mem_append, not_or] at absent
      rw [operand]
      exact ⟨value_ignores (operand_ignores absent.1), value_ignores (operand_ignores absent.2)⟩
  | .new _ _ args, absent => by
      rw [Expr.freeNames] at absent
      rw [operand]
      exact sem.operate_ignores (operands_ignores absent)
  | .unary _ _ inner, absent => by
      rw [Expr.freeNames] at absent
      rw [operand]
      refine sem.operate_ignores fun found member => ?_
      rw [List.mem_singleton.mp member]
      exact operand_ignores absent
  | .binary _ _ lhs rhs, absent => by
      rw [Expr.freeNames, List.mem_append, not_or] at absent
      rw [operand]
      refine sem.operate_ignores fun found member => ?_
      rcases List.mem_cons.mp member with rfl | later
      · exact operand_ignores absent.1
      · rw [List.mem_singleton.mp later]
        exact operand_ignores absent.2
  | .assign _ lhs rhs, absent => by
      rw [Expr.freeNames, List.mem_append, not_or] at absent
      rw [operand]
      exact assign_ignores (operand_ignores absent.2) (operand_ignores absent.1)
  | .lambda _ param body, absent => by
      rw [Expr.freeNames] at absent
      rw [operand]
      intro argument
      refine .withLocal fun outside => value_ignores (operand_ignores fun free => ?_)
      exact absent (List.mem_filter.mpr ⟨free, by simpa using Ne.symm outside⟩)
  | .paren _ inner, absent => by
      rw [Expr.freeNames] at absent
      rw [operand]
      exact operand_ignores absent
  | .error _, _ => by
      rw [operand]
      exact Computation.Ignores.stuck

theorem operands_ignores :
    ∀ {exprs : List Expr}, name ∉ Expr.freeNamesIn exprs →
      ∀ found ∈ sem.operands exprs, found.Ignores name
  | [], _ => by
      intro found member
      rw [operands] at member
      exact absurd member List.not_mem_nil
  | expr :: exprs, absent => by
      rw [Expr.freeNamesIn, List.mem_append, not_or] at absent
      intro found member
      rw [operands] at member
      rcases List.mem_cons.mp member with rfl | later
      · exact operand_ignores absent.1
      · exact operands_ignores absent.2 found later

end

theorem evaluate_ignores {expr : Expr} (absent : name ∉ expr.freeNames) :
    (sem.evaluate expr).Ignores name :=
  value_ignores (operand_ignores absent)

theorem test_ignores {cond : Expr} (absent : name ∉ cond.freeNames) :
    (sem.test cond).Ignores name :=
  (evaluate_ignores absent).bind fun _ => .pure _

theorem applied_ignores {param : String} {body : Expr} {argument : Value}
    (absent : name ∉ body.freeNames.filter (· ≠ param)) :
    (sem.applied param body argument).Ignores name := by
  refine .withLocal fun outside => evaluate_ignores fun free => ?_
  exact absent (List.mem_filter.mpr ⟨free, by simpa using Ne.symm outside⟩)

theorem decided_ignores {param : String} {body : Expr} {argument : Value}
    (absent : name ∉ body.freeNames.filter (· ≠ param)) :
    (sem.decided param body argument).Ignores name :=
  (applied_ignores absent).bind fun _ => .pure _

theorem elementsOf_ignores {seq : Expr} (absent : name ∉ seq.freeNames) :
    (sem.elementsOf seq).Ignores name where
  source := (evaluate_ignores absent).bind fun value => sem.elements_ignores value name
  stage _ := .pure _

theorem pipeline_ignores {seq : Expr} (absent : name ∉ seq.freeNames) :
    (sem.pipeline seq).Ignores name := by
  fun_induction pipeline sem seq with
  | case1 span inner ih =>
      rw [Expr.freeNames] at absent
      exact ih absent
  | case2 span memberSpan target typeArgs lambdaSpan param body ih =>
      simp only [Expr.freeNames, Expr.freeNamesIn, List.append_nil, List.mem_append, not_or]
        at absent
      exact Elements.filter_ignores (ih absent.1) fun _ => decided_ignores absent.2
  | case3 span memberSpan target typeArgs lambdaSpan param body notWhere ih =>
      simp only [Expr.freeNames, Expr.freeNamesIn, List.append_nil, List.mem_append, not_or]
        at absent
      exact Elements.map_ignores (ih absent.1) fun _ => applied_ignores absent.2
  | case4 => exact elementsOf_ignores absent
  | case5 => exact elementsOf_ignores absent

theorem initialized_ignores {type : TypeRef} {init : Option Expr}
    (absent : name ∉ Expr.freeNamesOption init) : (sem.initialized type init).Ignores name := by
  cases init with
  | none => exact .pure _
  | some init => exact evaluate_ignores absent

/-- The variables declared before a name hide it from the rest. -/
theorem declare_ignores {type : TypeRef} {declarators : List Declarator}
    {rest : Computation (State Value World) Event (Exit Value)}
    (absent : name ∉ Declarator.freeNamesIn declarators)
    (ignored : name ∉ declarators.map Declarator.name → rest.Ignores name) :
    (sem.declare type rest declarators).Ignores name := by
  induction declarators with
  | nil => exact ignored List.not_mem_nil
  | cons declarator declarators ih =>
      rw [Declarator.freeNamesIn, List.mem_append, not_or] at absent
      refine (initialized_ignores absent.1).bind fun found => .withLocal fun outside => ih ?_ ?_
      · intro free
        exact absent.2 (List.mem_filter.mpr ⟨free, by simpa using Ne.symm outside⟩)
      · intro undeclared
        refine ignored fun member => ?_
        rcases List.mem_cons.mp member with here | later
        · exact outside here.symm
        · exact undeclared later

mutual

theorem run_ignores : ∀ {stmt : Stmt}, name ∉ stmt.freeNames → (sem.run stmt).Ignores name
  | .block _ stmts, absent => by
      rw [Stmt.freeNames] at absent
      rw [run]
      exact runIn_ignores absent
  | .decl _ declared, absent => by
      rw [Stmt.freeNames] at absent
      rw [run]
      exact declare_ignores absent fun _ => .pure _
  | .expr _ value, absent => by
      rw [Stmt.freeNames] at absent
      rw [run]
      exact (evaluate_ignores absent).bind fun _ => .pure _
  | .ifThen _ cond body, absent => by
      rw [Stmt.freeNames, List.mem_append, not_or] at absent
      rw [run]
      refine (test_ignores absent.1).bind fun holds => ?_
      split
      · exact run_ignores absent.2
      · exact .pure _
  | .ifElse _ cond body otherwise, absent => by
      rw [Stmt.freeNames, List.mem_append, not_or, List.mem_append, not_or] at absent
      rw [run]
      refine (test_ignores absent.1).bind fun holds => ?_
      split
      · exact run_ignores absent.2.1
      · exact run_ignores absent.2.2
  | .foreach _ _ var _ seq body, absent => by
      rw [Stmt.freeNames, List.mem_append, not_or] at absent
      rw [run]
      refine Elements.loop_ignores (pipeline_ignores absent.1) fun element =>
        Elements.visit_ignores fun outside => run_ignores fun free => ?_
      exact absent.2 (List.mem_filter.mpr ⟨free, by simpa using Ne.symm outside⟩)
  | .whileLoop _ cond body, absent => by
      rw [Stmt.freeNames, List.mem_append, not_or] at absent
      rw [run]
      refine .repeated ((test_ignores absent.1).bind fun holds => ?_)
      split
      · exact (run_ignores absent.2).bind fun _ => .pure _
      · exact .pure _
  | .continueLoop _, _ => by
      rw [run]
      exact .pure _
  | .breakLoop _, _ => by
      rw [run]
      exact .pure _
  | .returnValue _ none, _ => by
      rw [run]
      exact .pure _
  | .returnValue _ (some value), absent => by
      rw [Stmt.freeNames, Expr.freeNamesOption] at absent
      rw [run]
      exact (evaluate_ignores absent).bind fun _ => .pure _
  | .empty _, _ => by
      rw [run]
      exact .pure _
  | .error _, _ => by
      rw [run]
      exact .stuck

/-- Code ignores the names that are not free in it. -/
theorem runIn_ignores :
    ∀ {stmts : List Stmt}, name ∉ Stmt.freeNamesIn stmts → (sem.runIn stmts).Ignores name
  | [], _ => by
      rw [runIn]
      exact .pure _
  | stmt :: stmts, absent => by
      rw [Stmt.freeNamesIn, List.mem_append, not_or] at absent
      have rest : name ∉ stmt.declaredNames → (sem.runIn stmts).Ignores name := by
        intro undeclared
        refine runIn_ignores fun free => ?_
        exact absent.2 (List.mem_filter.mpr ⟨free, by simpa using undeclared⟩)
      rw [runIn]
      cases found : stmt.declared? with
      | none =>
          refine Exit.andThen_ignores (run_ignores absent.1) (rest ?_)
          rw [Stmt.declaredNames, found]
          exact List.not_mem_nil
      | some declared =>
          obtain ⟨span, rfl⟩ := Stmt.eq_decl_of_declared? found
          rw [Stmt.freeNames] at absent
          exact declare_ignores absent.1 rest

end

end Semantics

end QueryLoop
