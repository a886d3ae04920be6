import QueryLoop.Proofs.Fixing.Replanned

namespace QueryLoop

variable {name : String}

namespace Expr

/-- The expression without the parentheses around it. -/
def unwrapped : Expr → Expr
  | paren _ inner => inner.unwrapped
  | expr => expr

/-- A named target is the variable itself, or the variable in parentheses. -/
theorem unwrapped_name?_eq_some_iff {expr : Expr} : expr.unwrapped.name? = some name ↔
    expr.name? = some name ∨
      ∃ span inner, expr = .paren span inner ∧ inner.unwrapped.name? = some name := by
  cases expr <;> simp [unwrapped, name?]

/-- Some assignment in the expression has the variable as its target, in parentheses
or not. -/
inductive Assigns (name : String) : Expr → Prop
  | target (span : Span) {lhs : Expr} (rhs : Expr) (named : lhs.unwrapped.name? = some name) :
      Assigns name (assign span lhs rhs)
  | part {expr part : Expr} (inside : part ∈ expr.parts) (assigns : Assigns name part) :
      Assigns name expr

/-- The left sides of the assignments in an expression. -/
def assignTargets (expr : Expr) : List Expr :=
  Node.assignTargets expr.nodes

end Expr

/-- Some assignment in an expression of the statement has the variable as its target. -/
inductive Stmt.Assigns (name : String) : Stmt → Prop
  | expr {stmt : Stmt} {expr : Expr} (inside : expr ∈ stmt.exprs) (assigns : expr.Assigns name) :
      Assigns name stmt
  | child {stmt child : Stmt} (inside : child ∈ stmt.children) (assigns : Assigns name child) :
      Assigns name stmt

theorem Node.assignTargets_append (first second : List Node) :
    assignTargets (first ++ second) = assignTargets first ++ assignTargets second :=
  List.filterMap_append

theorem Node.mem_assignTargets_flatMap {α : Type} {nodesOf : α → List Node} {parts : List α}
    {target : Expr} : target ∈ assignTargets (parts.flatMap nodesOf) ↔
      ∃ part ∈ parts, target ∈ assignTargets (nodesOf part) := by
  rw [assignTargets, List.filterMap_flatMap, List.mem_flatMap]
  rfl

namespace Expr

theorem mem_assignTargets_iff {expr target : Expr} : target ∈ expr.assignTargets ↔
    (∃ span rhs, expr = .assign span target rhs) ∨
      ∃ part ∈ expr.parts, target ∈ part.assignTargets := by
  rw [assignTargets, nodes_eq, Node.assignTargets, List.filterMap_cons]
  have inside : target ∈ Node.assignTargets (expr.parts.flatMap nodes) ↔
      ∃ part ∈ expr.parts, target ∈ part.assignTargets := Node.mem_assignTargets_flatMap
  rw [← inside]
  cases expr <;> simp [Node.assignTargets, eq_comm]

theorem assigns_iff {expr : Expr} : expr.Assigns name ↔
    ∃ target ∈ expr.assignTargets, target.unwrapped.name? = some name := by
  constructor
  · intro assigns
    induction assigns with
    | target span rhs named => exact ⟨_, mem_assignTargets_iff.mpr (.inl ⟨_, _, rfl⟩), named⟩
    | part inside assigns ih =>
        obtain ⟨target, isTarget, named⟩ := ih
        exact ⟨target, mem_assignTargets_iff.mpr (.inr ⟨_, inside, isTarget⟩), named⟩
  · rintro ⟨target, isTarget, named⟩
    induction expr using parts_induction with
    | step expr ih =>
        rcases mem_assignTargets_iff.mp isTarget with ⟨span, rhs, rfl⟩ | ⟨part, inside, isTarget⟩
        · exact .target span rhs named
        · exact .part inside (ih part inside isTarget)

end Expr

namespace Stmt

theorem mem_assignTargets_iff {stmt : Stmt} {target : Expr} : target ∈ stmt.assignTargets ↔
    (∃ expr ∈ stmt.exprs, target ∈ expr.assignTargets) ∨
      ∃ child ∈ stmt.children, target ∈ child.assignTargets := by
  have own : stmt.assignTargets = Node.assignTargets (stmt.exprs.flatMap Expr.nodes) ++
      Node.assignTargets (stmt.children.flatMap nodes) := by
    rw [assignTargets, nodes_eq, ← Node.assignTargets_append]
    rfl
  rw [own, List.mem_append, Node.mem_assignTargets_flatMap, Node.mem_assignTargets_flatMap]
  rfl

theorem assigns_iff {stmt : Stmt} : stmt.Assigns name ↔
    ∃ target ∈ stmt.assignTargets, target.unwrapped.name? = some name := by
  constructor
  · intro assigns
    induction assigns with
    | expr inside assigns =>
        obtain ⟨target, isTarget, named⟩ := Expr.assigns_iff.mp assigns
        exact ⟨target, mem_assignTargets_iff.mpr (.inl ⟨_, inside, isTarget⟩), named⟩
    | child inside assigns ih =>
        obtain ⟨target, isTarget, named⟩ := ih
        exact ⟨target, mem_assignTargets_iff.mpr (.inr ⟨_, inside, isTarget⟩), named⟩
  · rintro ⟨target, isTarget, named⟩
    induction stmt using children_induction with
    | step stmt ih =>
        rcases mem_assignTargets_iff.mp isTarget with ⟨expr, inside, isTarget⟩ |
          ⟨child, inside, isTarget⟩
        · exact .expr inside (Expr.assigns_iff.mpr ⟨target, isTarget, named⟩)
        · exact .child inside (ih child inside isTarget)

/-- Where the variable itself is no target, only parentheses can hide an assignment. -/
theorem assigns_iff_of_notMem_assigned {stmt : Stmt} (unassigned : name ∉ stmt.assigned) :
    stmt.Assigns name ↔ ∃ span inner, .paren span inner ∈ stmt.assignTargets ∧
      inner.unwrapped.name? = some name := by
  rw [assigns_iff]
  constructor
  · rintro ⟨target, isTarget, named⟩
    rcases Expr.unwrapped_name?_eq_some_iff.mp named with named | ⟨span, inner, rfl, named⟩
    · exact (unassigned (List.mem_filterMap.mpr ⟨target, isTarget, named⟩)).elim
    · exact ⟨span, inner, isTarget, named⟩
  · rintro ⟨span, inner, isTarget, named⟩
    exact ⟨_, isTarget, named⟩

theorem assigns_block_iff {span : Span} {stmts : List Stmt} :
    (block span stmts).Assigns name ↔ ∃ stmt ∈ stmts, stmt.Assigns name := by
  constructor
  · rintro (⟨inside, -⟩ | ⟨inside, assigns⟩)
    · simp [exprs] at inside
    · exact ⟨_, inside, assigns⟩
  · rintro ⟨stmt, inside, assigns⟩
    exact .child inside assigns

theorem assigns_decl_iff {span : Span} {declared : LocalDecl} :
    (decl span declared).Assigns name ↔ ∃ init ∈ declared.inits, init.Assigns name := by
  constructor
  · rintro (⟨inside, assigns⟩ | ⟨inside, -⟩)
    · exact ⟨_, inside, assigns⟩
    · simp [children] at inside
  · rintro ⟨init, inside, assigns⟩
    exact .expr inside assigns

end Stmt

namespace Loop

variable {loop : Loop} {shape : Shape}

/-- No later statement of a projected loop has the bare variable as a target.  So the loop has
an assignment to its variable exactly if an initializer that stays in the declaration has one,
or a later statement has one with parentheses around the variable. -/
theorem map_plan_assigns_iff (options : ScanOptions) (found : loop.map? .textual = some shape) :
    ∃ span declSpan type head others rest planned,
      loop.body = .block span (.decl declSpan ⟨type, head :: others⟩ :: rest) ∧
      loop.plan shape .textual options = .ok planned ∧
      planned.var = head.name ∧
      planned.body = .block span (.decl declSpan ⟨type, others⟩ :: rest) ∧
      (∀ stmt ∈ rest, planned.var ∉ stmt.assigned) ∧
      (planned.body.Assigns planned.var ↔
        (∃ init ∈ others.filterMap Declarator.init, init.Assigns planned.var) ∨
          ∃ stmt ∈ rest, ∃ span inner, .paren span inner ∈ stmt.assignTargets ∧
            inner.unwrapped.name? = some planned.var) := by
  obtain ⟨kind, planned, plans⟩ := planned_of_map? options found
  cases plans with
  | filterIf | filterIfContinue => simp [Refactor.ofShape] at kind
  | @map span declSpan headSpan type name init lambda others rest blockOf made =>
      obtain ⟨-, -, -, -, calm⟩ := (map?_eq_some_iff blockOf).mp found
      have unassigned : ∀ stmt ∈ rest, name ∉ stmt.assigned :=
        fun stmt inside assigned => calm stmt inside (.inr assigned)
      refine ⟨_, _, _, _, _, _, _, blockOf, (Planned.map blockOf made).plan_eq, rfl, rfl,
        unassigned, ?_⟩
      rw [Stmt.assigns_block_iff, List.exists_mem_cons_iff, Stmt.assigns_decl_iff]
      refine or_congr_right (exists_congr fun stmt => and_congr_right fun inside => ?_)
      exact Stmt.assigns_iff_of_notMem_assigned (unassigned stmt inside)

/-- `foreach (var foo in bar) { var y = foo.Size, z = value; Print(z); }` -/
def declaring (value : Expr) : Loop where
  span := default
  type := ⟨["var"], [], default⟩
  var := "foo"
  varSpan := default
  seq := .ident default "bar"
  body := .block default
    [.decl default ⟨⟨["var"], [], default⟩,
      [⟨"y", some (.member default (.ident default "foo") "Size" []), default⟩,
        ⟨"z", some value, default⟩]⟩,
    .expr default (.call default (.ident default "Print") [.ident default "z"])]

/-- `foreach (var foo in bar) { var y = foo.Size, z = y; Print(z); }` -/
theorem map_plan_not_assigns_read :
    let loop := declaring (.ident default "y")
    ∃ shape planned, loop.map? .textual = some shape ∧
      loop.plan shape .textual {} = .ok planned ∧ ¬planned.body.Assigns planned.var := by
  intro loop
  have found : loop.map? .textual = some (.map "y" default default) := by decide
  obtain ⟨span, declSpan, type, head, others, rest, planned, blockOf, plans, var_eq, -, -,
    assigns_iff⟩ :=
    map_plan_assigns_iff {} found
  refine ⟨_, planned, found, plans, ?_⟩
  cases blockOf
  rw [assigns_iff, var_eq]
  rintro (⟨init, isInit, assigns⟩ | ⟨stmt, inside, span, inner, isTarget, -⟩)
  · cases List.mem_singleton.mp isInit
    cases assigns with
    | part inside assigns => simp [Expr.parts] at inside
  · cases List.mem_singleton.mp inside
    exact List.not_mem_nil (isTarget : _ ∈ ([] : List Expr))

/-- `foreach (var foo in bar) { var y = foo.Size, z = y = 1; Print(z); }` -/
theorem map_plan_assigns_in_declarator :
    let loop := declaring (.assign default (.ident default "y") (.literal default (.int "1")))
    ∃ shape planned, loop.map? .textual = some shape ∧
      loop.plan shape .textual {} = .ok planned ∧ planned.body.Assigns planned.var := by
  refine ⟨_, _, rfl, rfl, .child List.mem_cons_self (.expr List.mem_cons_self ?_)⟩
  exact .target default _ rfl

end Loop

end QueryLoop
