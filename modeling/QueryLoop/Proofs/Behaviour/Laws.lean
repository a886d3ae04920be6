import QueryLoop.Proofs.Behaviour.Coincidence
import QueryLoop.Proofs.Binding.References

namespace QueryLoop

namespace Exit

variable {Value World Event : Type} {name : String} {value : Value}
  {first rest : Computation (State Value World) Event (Exit Value)}

theorem pure_andThen_of_ne {exit : Exit Value} (leaves : exit ≠ .normal) :
    andThen (pure exit) rest = pure exit := by
  rw [andThen, pure_bind]
  cases exit with
  | normal => exact absurd rfl leaves
  | broken => rfl
  | continued => rfl
  | returned value => rfl

theorem pure_normal_andThen : andThen (pure .normal) rest = rest := by
  rw [andThen, pure_bind]

theorem andThen_pure_normal : andThen first (pure .normal) = first := by
  refine Eq.trans ?_ (bind_pure first)
  rw [andThen]
  congr 1
  funext exit
  cases exit with
  | normal => rfl
  | broken => rfl
  | continued => rfl
  | returned value => rfl

theorem bind_andThen {Other : Type} {early : Computation (State Value World) Event Other}
    {next : Other → Computation (State Value World) Event (Exit Value)} :
    andThen (early >>= next) rest = early >>= fun found => andThen (next found) rest :=
  bind_assoc early next _

theorem andThen_assoc {last : Computation (State Value World) Event (Exit Value)} :
    andThen (andThen first rest) last = andThen first (andThen rest last) := by
  rw [andThen, andThen, andThen, bind_assoc]
  congr 1
  funext exit
  cases exit with
  | normal => rfl
  | broken => exact pure_andThen_of_ne (by simp)
  | continued => exact pure_andThen_of_ne (by simp)
  | returned value => exact pure_andThen_of_ne (by simp)

theorem withLocal_andThen (ignored : rest.Ignores name) :
    Computation.withLocal name value (andThen first rest) =
      andThen (Computation.withLocal name value first) rest := by
  refine Computation.withLocal_bind fun exit => ?_
  cases exit with
  | normal => exact ignored
  | broken => exact .pure _
  | continued => exact .pure _
  | returned value => exact .pure _

end Exit

namespace Elements

variable {Value World Event : Type} {elements : Elements Value World Event}
  {body : Value → Computation (State Value World) Event (Option (Exit Value))}

theorem step_filter {keep : Value → Computation (State Value World) Event Bool}
    {decided : Value → Computation (State Value World) Event (Option (Exit Value))}
    (decides : ∀ element, decided element =
      keep element >>= fun kept => if kept then body element else pure none) (element : Value) :
    (elements.filter keep).step body element = elements.step decided element := by
  rw [step, step, filter, bind_assoc]
  congr 1
  funext found
  cases found with
  | none => rw [pure_bind]
  | some found =>
      rw [bind_assoc]
      refine Eq.trans ?_ (decides found).symm
      congr 1
      funext kept
      rw [pure_bind]
      cases kept with
      | false => rfl
      | true => rfl

theorem step_map {project : Value → Computation (State Value World) Event Value}
    (element : Value) :
    (elements.map project).step body element =
      elements.step (fun found => project found >>= body) element := by
  rw [step, step, map, bind_assoc]
  congr 1
  funext found
  cases found with
  | none => rw [pure_bind]
  | some found =>
      rw [bind_assoc]
      congr 1
      funext projected
      rw [pure_bind]

/-- A filter is a decision at the start of the body. -/
theorem loop_filter {keep : Value → Computation (State Value World) Event Bool}
    {decided : Value → Computation (State Value World) Event (Option (Exit Value))}
    (decides : ∀ element, decided element =
      keep element >>= fun kept => if kept then body element else pure none) :
    (elements.filter keep).loop body = elements.loop decided := by
  rw [loop, loop, funext (step_filter decides)]
  rfl

theorem loop_map {project : Value → Computation (State Value World) Event Value} :
    (elements.map project).loop body = elements.loop fun element => project element >>= body := by
  rw [loop, loop, funext step_map]
  rfl

end Elements

namespace Semantics

variable {Value World Event : Type} {sem : Semantics Value World Event}

theorem pipeline_operand (seq : Expr) : sem.pipeline seq.operand = sem.pipeline seq := by
  rw [Expr.operand]
  split
  · rfl
  · rw [pipeline]

theorem pipeline_where (seq : Expr) (param : String) (predicate : Expr) :
    sem.pipeline (seq.memberCall "Where" [.abstracted param predicate]) =
      (sem.pipeline seq).filter (sem.decided param predicate) := by
  rw [Expr.memberCall, Expr.abstracted, pipeline, if_pos rfl, pipeline_operand]

theorem pipeline_select (seq : Expr) (param : String) (projection : Expr) :
    sem.pipeline (seq.memberCall "Select" [.abstracted param projection]) =
      (sem.pipeline seq).map (sem.applied param projection) := by
  rw [Expr.memberCall, Expr.abstracted, pipeline, if_neg (by decide), if_pos rfl,
    pipeline_operand]

/-- A statement alone in a block. -/
theorem runIn_singleton (stmt : Stmt) : sem.runIn [stmt] = sem.run stmt := by
  rw [runIn, runIn]
  cases found : stmt.declared? with
  | none => exact Exit.andThen_pure_normal
  | some declared =>
      obtain ⟨span, rfl⟩ := Stmt.eq_decl_of_declared? found
      rw [run]

theorem declare_andThen {type : TypeRef} {declarators : List Declarator}
    {first rest : Computation (State Value World) Event (Exit Value)}
    (ignored : ∀ name ∈ declarators.map Declarator.name, rest.Ignores name) :
    sem.declare type (Exit.andThen first rest) declarators =
      Exit.andThen (sem.declare type first declarators) rest := by
  induction declarators with
  | nil => rfl
  | cons declarator declarators ih =>
      have here := ignored declarator.name (List.mem_cons_self ..)
      have later := ih fun name member => ignored name (List.mem_cons_of_mem _ member)
      rw [declare, declare, later, Exit.bind_andThen]
      congr 1
      funext found
      exact Exit.withLocal_andThen here

/-- A block in front of other statements can be opened if these use none of the names
it declares. -/
theorem runIn_append {stmts rest : List Stmt}
    (separate : ∀ name ∈ Stmt.declaredNamesIn stmts, name ∉ Stmt.freeNamesIn rest) :
    sem.runIn (stmts ++ rest) = Exit.andThen (sem.runIn stmts) (sem.runIn rest) := by
  induction stmts with
  | nil =>
      rw [List.nil_append, runIn]
      exact Exit.pure_normal_andThen.symm
  | cons stmt stmts ih =>
      rw [Stmt.declaredNamesIn, List.flatMap_cons] at separate
      have later := ih fun name member => separate name (List.mem_append_right _ member)
      rw [List.cons_append, runIn, runIn, later]
      cases found : stmt.declared? with
      | none => exact Exit.andThen_assoc.symm
      | some declared =>
          refine declare_andThen fun name member => runIn_ignores (separate name ?_)
          rw [Stmt.declaredNames, found]
          exact List.mem_append_left _ member

end Semantics

end QueryLoop
