import QueryLoop.Proofs.Fixing.Errors
import QueryLoop.Proofs.Fixing.Nested

namespace QueryLoop

/-! Plans for a loop after a loop inside it is fixed.

A plan moves statements of the loop as they are, so a loop inside it can be exchanged
before the plan is made or after it, with the same outcome.  Only whether the loop is
still found can change, and only for a projection: it looks for names in the whole rest
of the body, and the plan for the inner loop has a new name in it, its parameter.
-/

variable {inner fixed : Loop}

namespace Stmt

variable {old new before after stmt : Stmt} {stmts stmts' others : List Stmt} {span : Span}

/-- The two lists differ in an exchange made in one of the statements. -/
def OneExchanged (old new : Stmt) (stmts stmts' : List Stmt) : Prop :=
  ∃ front before after back, stmts = front ++ before :: back ∧ stmts' = front ++ after :: back ∧
    Exchanged old new before after

namespace OneExchanged

theorem block (one : OneExchanged old new stmts stmts') (span : Span) :
    Exchanged old new (.block span stmts) (.block span stmts') := by
  obtain ⟨front, before, after, back, rfl, rfl, inner⟩ := one
  exact .inBlock span front back inner

theorem singleton (exchanged : Exchanged old new before after) :
    OneExchanged old new [before] [after] :=
  ⟨[], before, after, [], rfl, rfl, exchanged⟩

theorem append_right (one : OneExchanged old new stmts stmts') (others : List Stmt) :
    OneExchanged old new (stmts ++ others) (stmts' ++ others) := by
  obtain ⟨front, before, after, back, rfl, rfl, inner⟩ := one
  exact ⟨front, before, after, back ++ others, by simp, by simp, inner⟩

theorem append_left (one : OneExchanged old new stmts stmts') (others : List Stmt) :
    OneExchanged old new (others ++ stmts) (others ++ stmts') := by
  obtain ⟨front, before, after, back, rfl, rfl, inner⟩ := one
  exact ⟨others ++ front, before, after, back, by simp, by simp, inner⟩

theorem head_or_tail (one : OneExchanged old new (stmt :: stmts) others) :
    (∃ stmt', others = stmt' :: stmts ∧ Exchanged old new stmt stmt') ∨
      ∃ stmts', others = stmt :: stmts' ∧ OneExchanged old new stmts stmts' := by
  obtain ⟨front, before, after, back, shape, rfl, inner⟩ := one
  cases front with
  | nil =>
      obtain ⟨rfl, rfl⟩ := List.cons.inj shape
      exact .inl ⟨after, rfl, inner⟩
  | cons first front =>
      obtain ⟨rfl, rfl⟩ := List.cons.inj shape
      exact .inr ⟨front ++ after :: back, rfl, front, before, after, back, rfl, rfl, inner⟩

theorem ne_nil (one : OneExchanged old new stmts stmts') : stmts' ≠ [] := by
  obtain ⟨front, before, after, back, -, rfl, -⟩ := one
  simp

end OneExchanged

/-- A loop in a block is in one of its statements. -/
theorem Exchanged.of_block (exchanged : Exchanged inner.toStmt fixed.tidied (block span stmts) after) :
    ∃ stmts', after = block span stmts' ∧ OneExchanged inner.toStmt fixed.tidied stmts stmts' := by
  generalize whole : block span stmts = before at exchanged
  cases exchanged with
  | here => simp [Loop.toStmt] at whole
  | inBlock span' front back deeper =>
      obtain ⟨rfl, rfl⟩ := Stmt.block.inj whole
      exact ⟨_, rfl, front, _, _, back, rfl, rfl, deeper⟩
  | _ => simp at whole

theorem Exchanged.of_ifThen {cond : Expr} {body : Stmt}
    (exchanged : Exchanged inner.toStmt fixed.tidied (ifThen span cond body) after) :
    ∃ body', after = ifThen span cond body' ∧ Exchanged inner.toStmt fixed.tidied body body' := by
  generalize whole : ifThen span cond body = before at exchanged
  cases exchanged with
  | here => simp [Loop.toStmt] at whole
  | inIfThen span' cond' deeper =>
      obtain ⟨rfl, rfl, rfl⟩ := Stmt.ifThen.inj whole
      exact ⟨_, rfl, deeper⟩
  | _ => simp at whole

theorem Exchanged.of_ifElse {cond : Expr} {body otherwise : Stmt}
    (exchanged : Exchanged inner.toStmt fixed.tidied (ifElse span cond body otherwise) after) :
    (∃ body', after = ifElse span cond body' otherwise ∧
        Exchanged inner.toStmt fixed.tidied body body') ∨
      ∃ otherwise', after = ifElse span cond body otherwise' ∧
        Exchanged inner.toStmt fixed.tidied otherwise otherwise' := by
  generalize whole : ifElse span cond body otherwise = before at exchanged
  cases exchanged with
  | here => simp [Loop.toStmt] at whole
  | inBody span' cond' otherwise' deeper =>
      obtain ⟨rfl, rfl, rfl, rfl⟩ := Stmt.ifElse.inj whole
      exact .inl ⟨_, rfl, deeper⟩
  | inOtherwise span' cond' body' deeper =>
      obtain ⟨rfl, rfl, rfl, rfl⟩ := Stmt.ifElse.inj whole
      exact .inr ⟨_, rfl, deeper⟩
  | _ => simp at whole

/-- In a declaration there is no loop. -/
theorem not_exchanged_decl {declared : LocalDecl} :
    ¬ Exchanged inner.toStmt fixed.tidied (decl span declared) after := by
  intro exchanged
  have inside := exchanged.mem_statements
  rw [statements_eq] at inside
  simp [children, Loop.toStmt] at inside

/-- In a branch that only continues there is no loop. -/
theorem not_exchanged_of_isContinueBranch (isContinue : before.isContinueBranch = true) :
    ¬ Exchanged inner.toStmt fixed.tidied before after := by
  intro exchanged
  have plain := Loop.plain_of_isContinueBranch isContinue inner.toStmt.place
    (List.mem_map_of_mem exchanged.mem_statements)
  simp [place, Loop.toStmt, loop?] at plain

theorem Exchanged.loneIf? (exchanged : Exchanged inner.toStmt fixed.tidied before after)
    {cond : Expr} {body : Stmt} (lone : before.loneIf? = some (cond, body)) :
    ∃ body', after.loneIf? = some (cond, body') ∧
      Exchanged inner.toStmt fixed.tidied body body' := by
  unfold Stmt.loneIf? at lone
  split at lone
  · cases lone
    obtain ⟨body', rfl, deeper⟩ := exchanged.of_ifThen
    exact ⟨body', rfl, deeper⟩
  · cases lone
    obtain ⟨stmts', rfl, one⟩ := exchanged.of_block
    rcases one.head_or_tail with ⟨only, rfl, inIf⟩ | ⟨rest, -, none_left⟩
    · obtain ⟨body', rfl, deeper⟩ := inIf.of_ifThen
      exact ⟨body', rfl, deeper⟩
    · obtain ⟨front, _, _, back, absent, -⟩ := none_left
      simp at absent
  · simp at lone

/-- An exchange in a guard is one in its `else`. -/
theorem Exchanged.branches? (exchanged : Exchanged inner.toStmt fixed.tidied before after)
    {cond : Expr} {body : Stmt} {otherwise : Option Stmt}
    (parts : before.branches? = some (cond, body, otherwise))
    (isContinue : body.isContinueBranch = true) :
    ∃ stmt stmt', otherwise = some stmt ∧ after.branches? = some (cond, body, some stmt') ∧
      Exchanged inner.toStmt fixed.tidied stmt stmt' := by
  unfold Stmt.branches? at parts
  split at parts
  · cases parts
    obtain ⟨body', -, deeper⟩ := exchanged.of_ifThen
    exact absurd deeper (not_exchanged_of_isContinueBranch isContinue)
  · cases parts
    rcases exchanged.of_ifElse with ⟨body', -, deeper⟩ | ⟨otherwise', rfl, deeper⟩
    · exact absurd deeper (not_exchanged_of_isContinueBranch isContinue)
    · exact ⟨_, otherwise', rfl, rfl, deeper⟩
  · simp at parts

theorem Exchanged.flattened (exchanged : Exchanged inner.toStmt fixed.tidied before after) :
    OneExchanged inner.toStmt fixed.tidied (Stmt.flattened (some before))
      (Stmt.flattened (some after)) := by
  cases exchanged with
  | inBlock span front back deeper => exact ⟨front, _, _, back, rfl, rfl, deeper⟩
  | here =>
      rw [Loop.tidied_eq]
      exact .singleton .here
  | inIfThen span cond deeper => exact .singleton (.inIfThen span cond deeper)
  | inBody span cond otherwise deeper => exact .singleton (.inBody span cond otherwise deeper)
  | inOtherwise span cond body deeper => exact .singleton (.inOtherwise span cond body deeper)
  | inForeach span type var varSpan seq deeper =>
      exact .singleton (.inForeach span type var varSpan seq deeper)
  | inWhile span cond deeper => exact .singleton (.inWhile span cond deeper)

end Stmt

namespace Stmt

variable {old new before after : Stmt}

theorem Exchanged.isEmptyDecl_eq_false (exchanged : Exchanged old new before after)
    (declares : old.isEmptyDecl = false) : before.isEmptyDecl = false := by
  cases exchanged with
  | here => exact declares
  | _ => rfl

/-- An exchange of statements without empty declarations can be made before they are
removed or after. -/
theorem Exchanged.removeEmptyDecls (exchanged : Exchanged old new before after)
    (declares : ∀ stmt ∈ old.statements, stmt.isEmptyDecl = false)
    (declares' : ∀ stmt ∈ new.statements, stmt.isEmptyDecl = false) :
    Exchanged old new before.removeEmptyDecls.1 after.removeEmptyDecls.1 := by
  induction exchanged with
  | here =>
      rw [removeEmptyDecls_eq_self declares, removeEmptyDecls_eq_self declares']
      exact .here
  | inBlock span front back deeper ih =>
      have stays := deeper.isEmptyDecl_eq_false (declares old old.self_mem_statements)
      have stays' := deeper.symm.isEmptyDecl_eq_false (declares' new new.self_mem_statements)
      simp only [Stmt.removeEmptyDecls, dropEmptyDecls_eq, List.filter_append, List.map_append,
        List.filter_cons, stays, stays', Bool.not_false, if_true, List.map_cons]
      exact .inBlock span _ _ ih
  | inIfThen span cond deeper ih =>
      simp only [Stmt.removeEmptyDecls]
      exact .inIfThen span cond ih
  | inBody span cond otherwise deeper ih =>
      simp only [Stmt.removeEmptyDecls]
      exact .inBody span cond _ ih
  | inOtherwise span cond body deeper ih =>
      simp only [Stmt.removeEmptyDecls]
      exact .inOtherwise span cond _ ih
  | inForeach span type var varSpan seq deeper ih =>
      simp only [Stmt.removeEmptyDecls]
      exact .inForeach span type var varSpan seq ih
  | inWhile span cond deeper ih =>
      simp only [Stmt.removeEmptyDecls]
      exact .inWhile span cond ih

end Stmt

namespace Loop

variable {options : ScanOptions} {loop planned : Loop} {shape : Shape} {body : Stmt}

theorem exchanged_toStmt (loop : Loop)
    (exchanged : Stmt.Exchanged inner.toStmt fixed.tidied loop.body body) :
    Stmt.Exchanged inner.toStmt fixed.tidied loop.toStmt { loop with body }.toStmt :=
  .inForeach loop.span loop.type loop.var loop.varSpan loop.seq exchanged

/-- The plan for a loop in which another one was exchanged is the plan for the loop, with
the other one exchanged in it. -/
theorem Planned.exchanged (plans : Planned .textual options loop shape planned)
    (same : fixed.tidied.span = inner.toStmt.span)
    (exchanged : Stmt.Exchanged inner.toStmt fixed.tidied loop.body body) :
    ∃ planned', Planned .textual options { loop with body } shape planned' ∧
      Stmt.Exchanged inner.toStmt fixed.tidied planned.toStmt planned'.toStmt := by
  cases plans with
  | @filterIf cond lambda kept lone made =>
      obtain ⟨kept', lone', deeper⟩ := exchanged.loneIf? lone
      have plans' : Planned .textual options { loop with body } (.filterIf cond.span kept'.span)
          { loop with seq := loop.seq.memberCall "Where" [lambda], body := kept' } :=
        .filterIf lone' made
      rw [deeper.span_eq same] at plans'
      exact ⟨_, plans', exchanged_toStmt _ deeper⟩
  | @filterIfContinue span guard branch rest cond lambda otherwise blockOf more parts isContinue
      made =>
      rw [blockOf] at exchanged
      obtain ⟨stmts', rfl, one⟩ := exchanged.of_block
      rcases one.head_or_tail with ⟨guard', rfl, inGuard⟩ | ⟨rest', rfl, inRest⟩
      · obtain ⟨stmt, stmt', rfl, parts', inElse⟩ := inGuard.branches? parts isContinue
        have plans' : Planned .textual options { loop with body := .block span (guard' :: rest) }
            (.filterIfContinue cond.span guard'.span)
            { loop with
              seq := loop.seq.memberCall "Where" [lambda]
              body := .block span (Stmt.flattened (some stmt') ++ rest) } :=
          .filterIfContinue rfl more parts' isContinue made
        rw [inGuard.span_eq same] at plans'
        exact ⟨_, plans', exchanged_toStmt _ ((inElse.flattened.append_right rest).block span)⟩
      · exact ⟨_, .filterIfContinue rfl inRest.ne_nil parts isContinue made,
          exchanged_toStmt _ ((inRest.append_left _).block span)⟩
  | @map span declSpan headSpan type name init lambda others rest blockOf made =>
      rw [blockOf] at exchanged
      obtain ⟨stmts', rfl, one⟩ := exchanged.of_block
      rcases one.head_or_tail with ⟨decl', -, inDecl⟩ | ⟨rest', rfl, inRest⟩
      · exact absurd inDecl Stmt.not_exchanged_decl
      · exact ⟨_, .map rfl made, exchanged_toStmt _ ((inRest.append_left [_]).block span)⟩

theorem Planned.exchanged_tidied (plans : Planned .textual options loop shape planned)
    (same : fixed.tidied.span = inner.toStmt.span)
    (exchanged : Stmt.Exchanged inner.toStmt fixed.tidied loop.body body)
    (declares : ∀ stmt ∈ inner.toStmt.statements, stmt.isEmptyDecl = false) :
    ∃ planned', Planned .textual options { loop with body } shape planned' ∧
      Stmt.Exchanged inner.toStmt fixed.tidied planned.tidied planned'.tidied := by
  obtain ⟨planned', plans', deeper⟩ := plans.exchanged same exchanged
  exact ⟨planned', plans', deeper.removeEmptyDecls declares fixed.toStmt.isEmptyDecl_removeEmptyDecls⟩

end Loop

namespace Stmt

variable {old new before after stmt : Stmt} {var declared : String}

/-- What holds of all nodes, as they show, holds of them after an exchange if it holds of
the nodes of the new statement. -/
theorem Exchanged.forall_nodes_iff {shows : Node → Prop}
    (surface_iff : ∀ node : Node, shows node.surface ↔ shows node)
    (exchanged : Exchanged old new before after) (same : new.span = old.span)
    (all : ∀ node ∈ before.nodes, shows node) :
    (∀ node ∈ after.nodes, shows node) ↔ ∀ node ∈ new.nodes, shows node := by
  have shown : ∀ nodes : List Node,
      (∀ node ∈ nodes, shows node) ↔ ∀ node ∈ nodes.map Node.surface, shows node := fun nodes => by
    simp [surface_iff]
  obtain ⟨front, back, before_eq, after_eq⟩ := exchanged.surfaces_eq same
  rw [shown, before_eq, List.forall_mem_append, List.forall_mem_append] at all
  rw [shown, after_eq, List.forall_mem_append, List.forall_mem_append, ← shown new.nodes]
  exact ⟨fun each => each.1.2, fun each => ⟨⟨all.1.1, each⟩, all.2⟩⟩

theorem Exchanged.readable (exchanged : Exchanged old new before after)
    (same : new.span = old.span) (readable : before.Readable) (new_readable : new.Readable) :
    after.Readable :=
  (exchanged.forall_nodes_iff (fun node => by rw [Node.isError_surface]) same readable).mpr
    new_readable

/-- The names of the variables that are assigned to somewhere in a statement. -/
def assigned (stmt : Stmt) : List String :=
  stmt.assignTargets.filterMap Expr.name?

/-- The statement mentions the first variable, or assigns to the second, by the spelling of
their names. -/
def Disturbs (stmt : Stmt) (var declared : String) : Prop :=
  var ∈ stmt.names ∨ declared ∈ stmt.assigned

theorem not_disturbs_iff : ¬ stmt.Disturbs var declared ↔ ∀ node ∈ stmt.nodes,
    var ∉ Node.names [node] ∧ declared ∉ (Node.assignTargets [node]).filterMap Expr.name? := by
  simp only [Disturbs, names, assigned, assignTargets, Node.names, Node.identifiers,
    Node.assignTargets, List.filterMap_filterMap, List.mem_filterMap, List.mem_singleton,
    exists_eq_left, not_or, not_exists, not_and, forall_and]

theorem Exchanged.not_disturbs_iff (exchanged : Exchanged old new before after)
    (same : new.span = old.span) (calm : ¬ before.Disturbs var declared) :
    ¬ after.Disturbs var declared ↔ ¬ new.Disturbs var declared := by
  rw [Stmt.not_disturbs_iff] at *
  rw [Stmt.not_disturbs_iff]
  refine exchanged.forall_nodes_iff (fun node => ?_) same calm
  cases node <;> rfl

theorem OneExchanged.not_disturbs_iff {stmts stmts' : List Stmt}
    (one : OneExchanged old new stmts stmts') (same : new.span = old.span)
    (calm : ∀ stmt ∈ stmts, ¬ stmt.Disturbs var declared) :
    (∀ stmt ∈ stmts', ¬ stmt.Disturbs var declared) ↔ ¬ new.Disturbs var declared := by
  obtain ⟨front, before, after, back, rfl, rfl, exchanged⟩ := one
  rw [List.forall_mem_append, List.forall_mem_cons] at calm ⊢
  obtain ⟨inFront, own, inBack⟩ := calm
  rw [exchanged.not_disturbs_iff same own]
  exact ⟨fun each => each.2.1, fun calm => ⟨inFront, calm, inBack⟩⟩

end Stmt

namespace Loop

variable {options : ScanOptions} {loop planned : Loop} {shape : Shape} {body : Stmt}

/-- The loop declares a variable from its own one, and is found only where nothing behind
the declaration mentions the one or assigns to the other.  With `fixed` in place of `old`
something does. -/
def StoppedBy (loop : Loop) (old fixed : Stmt) : Prop :=
  old ∈ loop.body.statements ∧ ∃ span declSpan type head others rest,
    loop.body = .block span (.decl declSpan ⟨type, head :: others⟩ :: rest) ∧
      fixed.Disturbs loop.var head.name

theorem isReadable_iff : loop.isReadable = true ↔ loop.toStmt.Readable := by
  rw [readable_toStmt_iff]
  simp [isReadable, Expr.hasError, Stmt.hasError, Node.hasError, Expr.Readable, Stmt.Readable]

theorem map?_eq_some_iff {span declSpan headSpan : Span} {type : TypeRef} {name : String}
    {init : Expr} {others : List Declarator} {rest : List Stmt}
    (blockOf : loop.body = .block span
      (.decl declSpan ⟨type, ⟨name, some init, headSpan⟩ :: others⟩ :: rest)) :
    loop.map? .textual = some shape ↔ shape = .map name headSpan init.span ∧
      loop.isReadable = true ∧ Resolver.textual.references init loop.var = true ∧
        (∀ expr ∈ others.filterMap Declarator.init, loop.var ∉ expr.names) ∧
          ∀ stmt ∈ rest, ¬ stmt.Disturbs loop.var name := by
  have unnamed : ∀ expr : Expr, loop.var ∉ expr.names ↔
      Resolver.textual.references expr loop.var = false := fun expr => by
    rw [← Resolver.references_textual_iff, Bool.not_eq_true]
  have calm : ∀ stmt : Stmt, ¬ stmt.Disturbs loop.var name ↔
      Resolver.textual.referencesIn stmt loop.var = false ∧
        stmt.assignTargets.any (Resolver.textual.denotes · name) = false := fun stmt => by
    rw [Stmt.Disturbs, not_or, ← Resolver.referencesIn_textual_iff, Bool.not_eq_true,
      List.any_eq_false]
    simp [Stmt.assigned, Resolver.denotes, Resolver.textual, Resolver.byKey]
  have var_eq : Resolver.textual.loopVariable loop = loop.var := rfl
  have declared_eq : Resolver.textual.declared ⟨name, some init, headSpan⟩ = name := rfl
  unfold map?
  rw [blockOf]
  simp only [var_eq, declared_eq, unnamed, calm]
  cases loop.isReadable with
  | false => simp
  | true =>
      rw [if_pos rfl]
      simp only [Option.ite_none_right_eq_some, Bool.and_eq_true, Bool.not_eq_true',
        List.any_eq_false, Option.some.injEq, Bool.not_eq_true]
      grind

theorem references_of_lambda? {expr lambda : Expr} {var preferred : String} {negate : Bool}
    {resolver : Resolver} (made : resolver.lambda? expr var preferred negate = some lambda) :
    resolver.references expr var = true := by
  unfold Resolver.lambda? at made
  split at made
  · assumption
  · simp at made

/-- A filter that has a plan is found where nothing was skipped. -/
theorem Planned.shape?_of_isFilter (plans : Planned .textual options loop shape planned)
    (isFilter : shape.isFilter = true) (readable : loop.isReadable = true) :
    (Refactor.ofShape shape).shape? loop .textual = some shape := by
  cases plans with
  | filterIf lone made =>
      simp [Refactor.ofShape, Refactor.shape?, filterIf?, readable, lone, references_of_lambda? made]
  | @filterIfContinue span guard branch rest cond lambda otherwise blockOf more parts isContinue
      made =>
      obtain ⟨second, others, rfl⟩ := List.exists_cons_of_ne_nil more
      simp [Refactor.ofShape, Refactor.shape?, filterIfContinue?, readable, blockOf, parts,
        isContinue, references_of_lambda? made]
  | map => simp [Shape.isFilter] at isFilter

/-- A filter does not start with a declaration. -/
theorem Planned.not_stoppedBy_of_isFilter (plans : Planned .textual options loop shape planned)
    (isFilter : shape.isFilter = true) (old new : Stmt) : ¬ loop.StoppedBy old new := by
  rintro ⟨-, span, declSpan, type, head, others, rest, blockOf, -⟩
  cases plans with
  | filterIf lone made => simp [blockOf, Stmt.loneIf?] at lone
  | filterIfContinue blockOf' more parts isContinue made =>
      rw [blockOf, Stmt.block.injEq, List.cons.injEq] at blockOf'
      obtain ⟨-, rfl, -⟩ := blockOf'
      simp [Stmt.branches?] at parts
  | map => simp [Shape.isFilter] at isFilter

theorem stoppedBy_iff {old new : Stmt} {span declSpan : Span} {type : TypeRef}
    {head : Declarator} {others : List Declarator} {rest : List Stmt}
    (blockOf : loop.body = .block span (.decl declSpan ⟨type, head :: others⟩ :: rest)) :
    loop.StoppedBy old new ↔ old ∈ loop.body.statements ∧ new.Disturbs loop.var head.name := by
  refine and_congr_right fun _ => ⟨?_, fun disturbed => ⟨_, _, _, _, _, _, blockOf, disturbed⟩⟩
  rintro ⟨span', declSpan', type', head', others', rest', blockOf', disturbed⟩
  rw [blockOf] at blockOf'
  cases blockOf'
  exact disturbed

/-- With an inner loop exchanged, a loop that was found is found as it was, unless it is
stopped by the new inner loop.  Then it is not found at all. -/
theorem Planned.shape?_exchanged (plans : Planned .textual options loop shape planned)
    (found : (Refactor.ofShape shape).shape? loop .textual = some shape)
    (same : fixed.tidied.span = inner.toStmt.span) (readable : fixed.tidied.Readable)
    (exchanged : Stmt.Exchanged inner.toStmt fixed.tidied loop.body body) :
    (¬ loop.StoppedBy inner.toStmt fixed.tidied →
        (Refactor.ofShape shape).shape? { loop with body } .textual = some shape) ∧
      (loop.StoppedBy inner.toStmt fixed.tidied →
        (Refactor.ofShape shape).shape? { loop with body } .textual = none) := by
  have whole : { loop with body }.isReadable = true :=
    isReadable_iff.mpr ((exchanged_toStmt loop exchanged).readable same
      (isReadable_iff.mp (isReadable_of_shape? found)) readable)
  obtain ⟨planned', plans', -⟩ := plans.exchanged same exchanged
  cases kind : shape.isFilter with
  | true =>
      exact ⟨fun _ => plans'.shape?_of_isFilter kind whole, fun stopped =>
        absurd stopped (plans.not_stoppedBy_of_isFilter kind _ _)⟩
  | false =>
      cases plans with
      | filterIf | filterIfContinue => simp [Shape.isFilter] at kind
      | @map span declSpan headSpan type name init lambda others rest blockOf made =>
          have inside := exchanged.mem_statements
          rw [stoppedBy_iff blockOf, and_iff_right inside]
          rw [blockOf] at exchanged
          obtain ⟨stmts', rfl, one⟩ := exchanged.of_block
          rcases one.head_or_tail with ⟨decl', -, inDecl⟩ | ⟨rest', rfl, inRest⟩
          · exact absurd inDecl Stmt.not_exchanged_decl
          · obtain ⟨-, -, used, unnamed, calm⟩ := (map?_eq_some_iff blockOf).mp found
            have calm_iff := inRest.not_disturbs_iff same calm
            refine ⟨fun undisturbed => ?_, fun disturbed => ?_⟩
            · exact (map?_eq_some_iff rfl).mpr
                ⟨rfl, whole, used, unnamed, calm_iff.mpr undisturbed⟩
            · refine Option.eq_none_iff_forall_ne_some.mpr fun shape again => ?_
              exact calm_iff.mp ((map?_eq_some_iff rfl).mp again).2.2.2.2 disturbed

end Loop

end QueryLoop
