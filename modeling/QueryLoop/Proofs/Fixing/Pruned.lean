import Mathlib.Algebra.Order.Ring.Nat
import QueryLoop.Proofs.Fixing.Planned
import QueryLoop.Proofs.Place.Nodes

namespace QueryLoop

/-! Removing empty declarations takes out each of them and nothing else.

`Pruned` says which changes are allowed: a declaration that declares nothing is left
out of a block, and anywhere else, where a statement is required, an empty block with
the same span stands in for it.  Some of these changes may be made or none.  Pruning
further does not change what all of the changes lead to, so there is only one pruned
statement that has no empty declaration left, and it is the one that is computed.
-/

mutual

/-- Some empty declarations inside the first statement are gone from the second. -/
inductive Stmt.Pruned : Stmt → Stmt → Prop
  | refl (stmt : Stmt) : Stmt.Pruned stmt stmt
  | cleared (span : Span) (type : TypeRef) :
      Stmt.Pruned (.decl span ⟨type, []⟩) (.block span [])
  | block (span : Span) {stmts kept : List Stmt} (inside : Stmt.PrunedIn stmts kept) :
      Stmt.Pruned (.block span stmts) (.block span kept)
  | ifThen (span : Span) (cond : Expr) {body body' : Stmt} (inside : Stmt.Pruned body body') :
      Stmt.Pruned (.ifThen span cond body) (.ifThen span cond body')
  | ifElse (span : Span) (cond : Expr) {body body' otherwise otherwise' : Stmt}
      (inside : Stmt.Pruned body body') (inside' : Stmt.Pruned otherwise otherwise') :
      Stmt.Pruned (.ifElse span cond body otherwise) (.ifElse span cond body' otherwise')
  | foreach (span : Span) (type : TypeRef) (var : String) (varSpan : Span) (seq : Expr)
      {body body' : Stmt} (inside : Stmt.Pruned body body') :
      Stmt.Pruned (.foreach span type var varSpan seq body)
        (.foreach span type var varSpan seq body')
  | whileLoop (span : Span) (cond : Expr) {body body' : Stmt} (inside : Stmt.Pruned body body') :
      Stmt.Pruned (.whileLoop span cond body) (.whileLoop span cond body')

/-- As `Stmt.Pruned`, for the statements of a block. -/
inductive Stmt.PrunedIn : List Stmt → List Stmt → Prop
  | nil : Stmt.PrunedIn [] []
  | dropped (span : Span) (type : TypeRef) {stmts kept : List Stmt}
      (others : Stmt.PrunedIn stmts kept) : Stmt.PrunedIn (.decl span ⟨type, []⟩ :: stmts) kept
  | kept {stmt stmt' : Stmt} {stmts kept : List Stmt} (declares : stmt.isEmptyDecl = false)
      (first : Stmt.Pruned stmt stmt') (others : Stmt.PrunedIn stmts kept) :
      Stmt.PrunedIn (stmt :: stmts) (stmt' :: kept)

end

namespace Stmt

variable {before after stmt : Stmt} {stmts kept : List Stmt}

theorem eq_of_isEmptyDecl (isEmpty : stmt.isEmptyDecl = true) :
    ∃ span type, stmt = .decl span ⟨type, []⟩ := by
  unfold isEmptyDecl at isEmpty
  split at isEmpty
  · exact ⟨_, _, rfl⟩
  · cases isEmpty

theorem prunedIn_dropEmptyDecls (each : ∀ stmt ∈ stmts, stmt.Pruned stmt.removeEmptyDecls.1) :
    PrunedIn stmts (dropEmptyDecls stmts).1 := by
  induction stmts with
  | nil =>
      rw [dropEmptyDecls]
      exact .nil
  | cons stmt stmts ih =>
      obtain ⟨first, others⟩ := List.forall_mem_cons.mp each
      rw [dropEmptyDecls]
      cases isEmpty : stmt.isEmptyDecl with
      | true =>
          obtain ⟨span, type, rfl⟩ := eq_of_isEmptyDecl isEmpty
          exact .dropped span type (ih others)
      | false => exact .kept isEmpty first (ih others)

theorem pruned_removeEmptyDecls (stmt : Stmt) : stmt.Pruned stmt.removeEmptyDecls.1 := by
  induction stmt using children_induction with
  | step stmt ih =>
      cases stmt with
      | block span stmts =>
          rw [removeEmptyDecls]
          exact .block span (prunedIn_dropEmptyDecls ih)
      | decl span declared =>
          obtain ⟨type, declarators⟩ := declared
          cases declarators with
          | nil =>
              rw [removeEmptyDecls]
              exact .cleared span type
          | cons first others =>
              rw [removeEmptyDecls]
              · exact .refl _
              all_goals simp
      | ifThen span cond body =>
          rw [removeEmptyDecls]
          exact .ifThen span cond (ih body List.mem_cons_self)
      | ifElse span cond body otherwise =>
          rw [removeEmptyDecls]
          exact .ifElse span cond (ih body (by simp [children])) (ih otherwise (by simp [children]))
      | foreach span type var varSpan seq body =>
          rw [removeEmptyDecls]
          exact .foreach span type var varSpan seq (ih body List.mem_cons_self)
      | whileLoop span cond body =>
          rw [removeEmptyDecls]
          exact .whileLoop span cond (ih body List.mem_cons_self)
      | _ => simpa [removeEmptyDecls] using Pruned.refl _

theorem dropEmptyDecls_count (stmts : List Stmt) :
    (dropEmptyDecls stmts).2 = (stmts.map fun stmt => stmt.removeEmptyDecls.2).sum := by
  induction stmts with
  | nil => rw [dropEmptyDecls]; rfl
  | cons stmt stmts ih =>
      rw [dropEmptyDecls]
      cases isEmpty : stmt.isEmptyDecl with
      | true =>
          obtain ⟨span, type, rfl⟩ := eq_of_isEmptyDecl isEmpty
          simp [removeEmptyDecls, ih, Nat.add_comm]
      | false => simp [ih]

/-- A statement counts itself, if it is an empty declaration, and what is counted in the
statements directly inside. -/
theorem removeEmptyDecls_count (stmt : Stmt) : stmt.removeEmptyDecls.2 =
    (stmt.children.map fun child => child.removeEmptyDecls.2).sum + stmt.isEmptyDecl.toNat := by
  cases stmt with
  | block span stmts => simp [removeEmptyDecls, children, isEmptyDecl, dropEmptyDecls_count]
  | decl span declared =>
      obtain ⟨type, declarators⟩ := declared
      cases declarators <;> simp [removeEmptyDecls, children, isEmptyDecl]
  | _ => simp [removeEmptyDecls, children, isEmptyDecl]

theorem removeEmptyDecls_eq_countP (stmt : Stmt) :
    stmt.removeEmptyDecls.2 = stmt.statements.countP isEmptyDecl := by
  induction stmt using children_induction with
  | step stmt ih =>
      rw [removeEmptyDecls_count, statements_eq, List.countP_cons, List.countP_flatMap,
        List.map_congr_left ih]
      cases stmt.isEmptyDecl <;> rfl

theorem Pruned.isEmptyDecl_eq (pruned : before.Pruned after)
    (declares : before.isEmptyDecl = false) : after.isEmptyDecl = false := by
  cases pruned with
  | refl => exact declares
  | _ => rfl

mutual

/-- What is pruned already is not missed in the end. -/
theorem Pruned.removeEmptyDecls_eq : ∀ {before after : Stmt}, before.Pruned after →
    after.removeEmptyDecls.1 = before.removeEmptyDecls.1
  | _, _, .refl _ => rfl
  | _, _, .cleared span type => by simp [removeEmptyDecls, dropEmptyDecls]
  | _, _, .block span inside => by simp [removeEmptyDecls, inside.dropEmptyDecls_eq]
  | _, _, .ifThen span cond inside => by simp [removeEmptyDecls, inside.removeEmptyDecls_eq]
  | _, _, .ifElse span cond inside inside' => by
      simp [removeEmptyDecls, inside.removeEmptyDecls_eq, inside'.removeEmptyDecls_eq]
  | _, _, .foreach span type var varSpan seq inside => by
      simp [removeEmptyDecls, inside.removeEmptyDecls_eq]
  | _, _, .whileLoop span cond inside => by simp [removeEmptyDecls, inside.removeEmptyDecls_eq]

theorem PrunedIn.dropEmptyDecls_eq : ∀ {stmts kept : List Stmt}, PrunedIn stmts kept →
    (dropEmptyDecls kept).1 = (dropEmptyDecls stmts).1
  | _, _, .nil => rfl
  | _, _, .dropped span type others => by
      simp [dropEmptyDecls, isEmptyDecl, others.dropEmptyDecls_eq]
  | _, _, .kept declares first others => by
      simp [dropEmptyDecls, declares, first.isEmptyDecl_eq declares, first.removeEmptyDecls_eq,
        others.dropEmptyDecls_eq]

end

/-- Only what has an empty declaration in it can be pruned. -/
theorem Pruned.eq_removeEmptyDecls (pruned : before.Pruned after)
    (noneLeft : ∀ inner ∈ after.statements, inner.isEmptyDecl = false) :
    after = before.removeEmptyDecls.1 := by
  rw [← pruned.removeEmptyDecls_eq, removeEmptyDecls_eq_self noneLeft]

/-- All expressions in a statement, each before the ones inside it. -/
def expressions (stmt : Stmt) : List Expr :=
  stmt.nodes.filterMap Node.expr?

theorem expressions_eq (stmt : Stmt) : stmt.expressions =
    (stmt.exprs.flatMap Expr.nodes).filterMap Node.expr? ++ stmt.children.flatMap expressions := by
  have inside : (stmt.children.flatMap nodes).filterMap Node.expr? =
      stmt.children.flatMap expressions := List.filterMap_flatMap
  rw [expressions, nodes_eq, List.filterMap_cons_none rfl, List.filterMap_append, inside]

mutual

/-- Expressions are neither lost, nor changed, nor moved past each other. -/
theorem Pruned.expressions_eq : ∀ {before after : Stmt}, before.Pruned after →
    after.expressions = before.expressions
  | _, _, .refl _ => rfl
  | _, _, .cleared span type => rfl
  | .block span stmts, .block _ kept, .block _ inside => by
      rw [Stmt.expressions_eq (.block span stmts), Stmt.expressions_eq (.block span kept)]
      simpa [exprs, children] using inside.expressions_eq
  | _, _, .ifThen span cond inside => by
      rw [Stmt.expressions_eq, Stmt.expressions_eq (.ifThen ..)]
      simp [exprs, children, inside.expressions_eq]
  | _, _, .ifElse span cond inside inside' => by
      rw [Stmt.expressions_eq, Stmt.expressions_eq (.ifElse ..)]
      simp [exprs, children, inside.expressions_eq, inside'.expressions_eq]
  | _, _, .foreach span type var varSpan seq inside => by
      rw [Stmt.expressions_eq, Stmt.expressions_eq (.foreach ..)]
      simp [exprs, children, inside.expressions_eq]
  | _, _, .whileLoop span cond inside => by
      rw [Stmt.expressions_eq, Stmt.expressions_eq (.whileLoop ..)]
      simp [exprs, children, inside.expressions_eq]

theorem PrunedIn.expressions_eq : ∀ {stmts kept : List Stmt}, PrunedIn stmts kept →
    kept.flatMap expressions = stmts.flatMap expressions
  | _, _, .nil => rfl
  | _, _, .dropped span type others => others.expressions_eq
  | _, _, .kept declares first others => by
      rw [List.flatMap_cons, List.flatMap_cons, first.expressions_eq, others.expressions_eq]

end

mutual

/-- The statements that stay are where they were, one behind the other as before. -/
theorem Pruned.spans_sublist : ∀ {before after : Stmt}, before.Pruned after →
    (after.statements.map span).Sublist (before.statements.map span)
  | _, _, .refl _ => .refl _
  | _, _, .cleared span type => by simp [statements_eq, children, Stmt.span]
  | _, _, .block span inside => by
      simpa [statements_eq, children, Stmt.span] using inside.spans_sublist
  | _, _, .ifThen span cond inside => by
      simpa [statements_eq, children, Stmt.span] using inside.spans_sublist
  | _, _, .ifElse span cond inside inside' => by
      simpa [statements_eq, children, Stmt.span] using
        inside.spans_sublist.append inside'.spans_sublist
  | _, _, .foreach span type var varSpan seq inside => by
      simpa [statements_eq, children, Stmt.span] using inside.spans_sublist
  | _, _, .whileLoop span cond inside => by
      simpa [statements_eq, children, Stmt.span] using inside.spans_sublist

theorem PrunedIn.spans_sublist : ∀ {stmts kept : List Stmt}, PrunedIn stmts kept →
    ((kept.flatMap statements).map span).Sublist ((stmts.flatMap statements).map span)
  | _, _, .nil => .refl _
  | _, _, .dropped span type others => by
      simpa [statements_eq, children] using others.spans_sublist.cons _
  | _, _, .kept declares first others => by
      simpa using first.spans_sublist.append others.spans_sublist

end

/-- The removal counts the empty declarations, leaves none, and changes nothing else.  It
is the only pruning that leaves none, and there is nothing to do for a second one. -/
theorem removeEmptyDecls_prunes_all (stmt : Stmt) :
    let removed := stmt.removeEmptyDecls
    removed.2 = stmt.statements.countP isEmptyDecl ∧
    (∀ inner ∈ removed.1.statements, inner.isEmptyDecl = false) ∧
    stmt.Pruned removed.1 ∧
    (∀ other, stmt.Pruned other → (∀ inner ∈ other.statements, inner.isEmptyDecl = false) →
      other = removed.1) ∧
    removed.1.expressions = stmt.expressions ∧
    (removed.1.statements.map span).Sublist (stmt.statements.map span) ∧
    removed.1.removeEmptyDecls = (removed.1, 0) := by
  intro removed
  have pruned : stmt.Pruned removed.1 := stmt.pruned_removeEmptyDecls
  have noneLeft := stmt.isEmptyDecl_removeEmptyDecls
  have nothing : removed.1.removeEmptyDecls.2 = 0 := by
    rw [removeEmptyDecls_eq_countP, List.countP_eq_zero]
    intro inner inside
    simp [noneLeft inner inside]
  have same : removed.1.removeEmptyDecls.1 = removed.1 := removeEmptyDecls_eq_self noneLeft
  exact ⟨stmt.removeEmptyDecls_eq_countP, noneLeft, pruned,
    fun other isPruned none => isPruned.eq_removeEmptyDecls none, pruned.expressions_eq,
    pruned.spans_sublist, Prod.ext same nothing⟩

end Stmt

end QueryLoop
