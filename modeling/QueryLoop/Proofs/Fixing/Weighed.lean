import Mathlib.Algebra.Order.BigOperators.Group.List
import Mathlib.Algebra.Order.Ring.Nat
import QueryLoop.Proofs.Fixing.Applied

namespace QueryLoop

/-- What declarations count in addition to being a statement, by the number of their
declarators. -/
structure Weighing where
  worth : Nat → Nat
  worth_zero : worth 0 = 0
  worth_lt : ∀ count, 0 < count → worth count < worth (count + 1)

theorem sum_map_flatMap {α β : Type} (measure : α → Nat) (inside : β → List α) (parts : List β) :
    ((parts.flatMap inside).map measure).sum =
      (parts.map fun part => ((inside part).map measure).sum).sum := by
  rw [List.map_flatMap, List.flatMap_def, List.sum_flatten, List.map_map]
  rfl

variable {weighing : Weighing}

namespace Stmt

/-- The number of variables that a statement declares itself. -/
def declaratorCount : Stmt → Nat
  | decl _ declared => declared.declarators.length
  | _ => 0

/-- What a statement counts without the statements inside it. -/
def cost (weighing : Weighing) (stmt : Stmt) : Nat :=
  weighing.worth stmt.declaratorCount + 1

/-- What a statement counts together with the statements inside it. -/
def weight (weighing : Weighing) (stmt : Stmt) : Nat :=
  (stmt.statements.map (cost weighing)).sum

theorem weight_eq (stmt : Stmt) :
    stmt.weight weighing = stmt.cost weighing + (stmt.children.map (weight weighing)).sum := by
  rw [weight, statements_eq, List.map_cons, List.sum_cons, sum_map_flatMap]
  rfl

theorem weight_pos (weighing : Weighing) (stmt : Stmt) : 0 < stmt.weight weighing := by
  rw [weight_eq, cost]
  omega

/-- Where nothing is declared, only the statement itself counts. -/
theorem cost_of_declaratorCount {stmt : Stmt} (nothing : stmt.declaratorCount = 0) :
    stmt.cost weighing = 1 := by
  rw [cost, nothing, weighing.worth_zero]

theorem declaratorCount_removeEmptyDecls (stmt : Stmt) :
    stmt.removeEmptyDecls.1.declaratorCount = stmt.declaratorCount := by
  cases stmt with
  | decl span declared =>
      obtain ⟨type, declarators⟩ := declared
      cases declarators with
      | nil => simp [removeEmptyDecls, declaratorCount]
      | cons first others => simp [removeEmptyDecls]
  | _ => simp [removeEmptyDecls, declaratorCount]

theorem weight_removeEmptyDecls_le (weighing : Weighing) (stmt : Stmt) :
    stmt.removeEmptyDecls.1.weight weighing ≤ stmt.weight weighing := by
  induction stmt using children_induction with
  | step stmt ih =>
      obtain ⟨-, -, kept, fewer, children⟩ := removeEmptyDecls_parts stmt
      have smaller : (kept.map fun child => child.removeEmptyDecls.1.weight weighing).sum ≤
          (kept.map (weight weighing)).sum :=
        List.sum_le_sum fun child isKept => ih child (fewer.subset isKept)
      have fewer' := (fewer.map (weight weighing)).sum_le_sum fun _ _ => Nat.zero_le _
      rw [weight_eq, weight_eq stmt, cost, declaratorCount_removeEmptyDecls, children, List.map_map]
      exact Nat.add_le_add_left (Nat.le_trans smaller fewer') _

theorem weight_block (span : Span) (stmts : List Stmt) :
    (block span stmts).weight weighing = 1 + (stmts.map (weight weighing)).sum := by
  rw [weight_eq, cost_of_declaratorCount rfl]
  rfl

theorem weight_decl (span : Span) (type : TypeRef) (declarators : List Declarator) :
    (decl span ⟨type, declarators⟩).weight weighing = weighing.worth declarators.length + 1 := by
  rw [weight_eq]
  rfl

theorem weight_ifThen (span : Span) (cond : Expr) (body : Stmt) :
    (ifThen span cond body).weight weighing = 1 + body.weight weighing := by
  rw [weight_eq, cost_of_declaratorCount rfl]
  simp [children]

theorem weight_ifElse (span : Span) (cond : Expr) (body otherwise : Stmt) :
    (ifElse span cond body otherwise).weight weighing =
      1 + (body.weight weighing + otherwise.weight weighing) := by
  rw [weight_eq, cost_of_declaratorCount rfl]
  simp [children]

theorem weight_flattened_le (weighing : Weighing) (otherwise : Stmt) :
    ((flattened (some otherwise)).map (weight weighing)).sum ≤ otherwise.weight weighing := by
  cases otherwise with
  | block span stmts =>
      rw [weight_block]
      exact Nat.le_add_left _ _
  | _ => simp [flattened]

theorem weight_of_loneIf? (weighing : Weighing) {stmt body : Stmt} {cond : Expr}
    (lone : stmt.loneIf? = some (cond, body)) : body.weight weighing < stmt.weight weighing := by
  unfold loneIf? at lone
  split at lone
  · cases lone
    rw [weight_ifThen]
    omega
  · cases lone
    rw [weight_block, List.map_singleton, List.sum_singleton, weight_ifThen]
    omega
  · simp at lone

/-- The statements that move up out of a guard weigh less than the guard. -/
theorem weight_of_branches? (weighing : Weighing) {guard body : Stmt} {cond : Expr}
    {otherwise : Option Stmt} (parts : guard.branches? = some (cond, body, otherwise)) :
    ((flattened otherwise).map (weight weighing)).sum < guard.weight weighing := by
  unfold branches? at parts
  split at parts
  · cases parts
    exact weight_pos weighing _
  · rename_i span first second other
    cases parts
    have moved := weight_flattened_le weighing other
    rw [weight_ifElse]
    omega
  · simp at parts

end Stmt

namespace Loop

variable {resolver : Resolver} {options : ScanOptions} {loop planned : Loop} {shape : Shape}

theorem weight_toStmt (loop : Loop) :
    loop.toStmt.weight weighing = 1 + loop.body.weight weighing := by
  rw [Stmt.weight_eq, Stmt.cost_of_declaratorCount rfl]
  simp [toStmt, Stmt.children]

theorem weight_tidied (loop : Loop) :
    loop.tidied.weight weighing = 1 + loop.body.removeEmptyDecls.1.weight weighing := by
  rw [tidied_eq, Stmt.weight_eq, Stmt.cost_of_declaratorCount rfl]
  simp [Stmt.children]

theorem two_le_weight_tidied (weighing : Weighing) (loop : Loop) :
    2 ≤ loop.tidied.weight weighing := by
  have positive := loop.body.removeEmptyDecls.1.weight_pos weighing
  rw [weight_tidied]
  omega

theorem Planned.weight_tidied_lt (weighing : Weighing)
    (plans : Planned resolver options loop shape planned) :
    planned.tidied.weight weighing < loop.toStmt.weight weighing := by
  have tidied := Stmt.weight_removeEmptyDecls_le weighing planned.body
  rw [weight_tidied, weight_toStmt]
  cases plans with
  | filterIf lone made =>
      have smaller := Stmt.weight_of_loneIf? weighing lone
      simp only at tidied ⊢
      omega
  | filterIfContinue blockOf more parts isContinue made =>
      have smaller := Stmt.weight_of_branches? weighing parts
      simp only [blockOf, Stmt.weight_block, List.map_append, List.sum_append, List.map_cons,
        List.sum_cons] at tidied ⊢
      omega
  | @map span declSpan headSpan type name init lambda others rest blockOf made =>
      simp only [blockOf, Stmt.weight_block, List.map_cons, List.sum_cons, Stmt.weight_decl,
        List.length_cons] at tidied ⊢
      cases others with
      | nil =>
          -- the declaration is left empty, and tidying drops it
          have dropped := Stmt.weight_removeEmptyDecls_le weighing (.block span rest)
          have body_eq : Stmt.removeEmptyDecls (.block span (.decl declSpan ⟨type, []⟩ :: rest)) =
              ((Stmt.removeEmptyDecls (.block span rest)).1,
                (Stmt.removeEmptyDecls (.block span rest)).2 + 1) := by
            simp [Stmt.removeEmptyDecls, Stmt.dropEmptyDecls, Stmt.isEmptyDecl]
          rw [Stmt.weight_block] at dropped
          rw [body_eq]
          simp only
          omega
      | cons second others =>
          have fewer := weighing.worth_lt (second :: others).length (Nat.zero_lt_succ _)
          omega

end Loop

namespace SourceTree

def weight (weighing : Weighing) (tree : SourceTree) : Nat :=
  (tree.statements.map (Stmt.cost weighing)).sum

/-- The statements are counted once, and what their declarators are worth is added. -/
theorem weight_eq_countStatements_add (tree : SourceTree) : tree.weight weighing =
    tree.countStatements +
      (tree.statements.map fun stmt => weighing.worth stmt.declaratorCount).sum := by
  have once : (tree.statements.map fun _ => 1).sum = tree.countStatements := by
    simp [statements, countStatements]
  rw [← once, Nat.add_comm, ← List.sum_map_add]
  rfl

theorem Exchanged.weight_eq (weighing : Weighing) {old new : Stmt} {before after : SourceTree}
    (exchanged : Exchanged old new before after) :
    ∃ others, before.weight weighing = others + old.weight weighing ∧
      after.weight weighing = others + new.weight weighing := by
  have costs : PartExchanged (old.statements.map (Stmt.cost weighing))
      (new.statements.map (Stmt.cost weighing)) (before.statements.map (Stmt.cost weighing))
      (after.statements.map (Stmt.cost weighing)) := by
    refine exchanged.map_statements fun exchanged => ?_
    cases exchanged with
    | here => exact .inl ⟨rfl, rfl⟩
    | _ => exact .inr rfl
  obtain ⟨front, back, before_eq, after_eq⟩ := costs
  refine ⟨front.sum + back.sum, ?_, ?_⟩
  · rw [weight, before_eq, List.sum_append, List.sum_append, ← Stmt.weight]
    omega
  · rw [weight, after_eq, List.sum_append, List.sum_append, ← Stmt.weight]
    omega

end SourceTree

end QueryLoop
