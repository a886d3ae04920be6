import QueryLoop.Proofs.Binding.Names
import Mathlib.Logic.Function.Basic

namespace QueryLoop

/-! What each identifier refers to.

The references of a node are listed in the order of the source, one for each
identifier, under a scope that says what the names around the node mean.  Two nodes
of the same form that list the same references differ only in the names of the
variables they bind.  The main statement is that two scopes give a node the same
references exactly if they agree on its free names.
-/

inductive Reference where
  /-- Something declared outside the code that is looked at. -/
  | outer (name : String)
  /-- A variable declared in it; they are numbered in the order of the source. -/
  | declared (number : Nat)
  /-- The parameter of the lambda at this depth of nesting. -/
  | parameter (depth : Nat)
deriving DecidableEq, Repr

mutual

/-- What the identifiers of an expression refer to.  `depth` lambdas stand around
it. -/
def Expr.references (scope : String → Reference) (depth : Nat) : Expr → List Reference
  | .literal .. => []
  | .ident _ name => [scope name]
  | .member _ target _ _ => target.references scope depth
  | .call _ callee args =>
      callee.references scope depth ++ Expr.referencesIn scope depth args
  | .index _ target position =>
      target.references scope depth ++ position.references scope depth
  | .new _ _ args => Expr.referencesIn scope depth args
  | .unary _ _ inner => inner.references scope depth
  | .binary _ _ lhs rhs => lhs.references scope depth ++ rhs.references scope depth
  | .assign _ lhs rhs => lhs.references scope depth ++ rhs.references scope depth
  | .lambda _ param body =>
      body.references (Function.update scope param (.parameter depth)) (depth + 1)
  | .paren _ inner => inner.references scope depth
  | .error _ => []

def Expr.referencesIn (scope : String → Reference) (depth : Nat) : List Expr → List Reference
  | [] => []
  | expr :: exprs => expr.references scope depth ++ Expr.referencesIn scope depth exprs

end

def Expr.referencesOption (scope : String → Reference) : Option Expr → List Reference
  | none => []
  | some expr => expr.references scope 0

namespace Declarator

/-- The scope behind the declarators, the first of which gets the number `next`. -/
def scopeAfter (scope : String → Reference) (next : Nat) : List Declarator → String → Reference
  | [] => scope
  | declarator :: declarators =>
      scopeAfter (Function.update scope declarator.name (.declared next)) (next + 1) declarators

def references (scope : String → Reference) (next : Nat) : List Declarator → List Reference
  | [] => []
  | declarator :: declarators =>
      Expr.referencesOption scope declarator.init ++
        references (Function.update scope declarator.name (.declared next)) (next + 1) declarators

end Declarator

mutual

/-- How many variables are declared somewhere in a statement. -/
def Stmt.variableCount : Stmt → Nat
  | .block _ stmts => Stmt.variableCountIn stmts
  | .decl _ declared => declared.declarators.length
  | .ifThen _ _ body => body.variableCount
  | .ifElse _ _ body otherwise => body.variableCount + otherwise.variableCount
  | .foreach _ _ _ _ _ body => body.variableCount + 1
  | .whileLoop _ _ body => body.variableCount
  | _ => 0

def Stmt.variableCountIn : List Stmt → Nat
  | [] => 0
  | stmt :: stmts => stmt.variableCount + Stmt.variableCountIn stmts

end

/-- The scope of the statements behind a statement of the same block. -/
def Stmt.scopeAfter (stmt : Stmt) (scope : String → Reference) (next : Nat) :
    String → Reference :=
  match stmt.declared? with
  | some declared => Declarator.scopeAfter scope next declared.declarators
  | none => scope

mutual

/-- What the identifiers of a statement refer to.  The first variable declared in it
gets the number `next`. -/
def Stmt.references (scope : String → Reference) (next : Nat) : Stmt → List Reference
  | .block _ stmts => Stmt.referencesIn scope next stmts
  | .decl _ declared => Declarator.references scope next declared.declarators
  | .expr _ value => value.references scope 0
  | .ifThen _ cond body => cond.references scope 0 ++ body.references scope next
  | .ifElse _ cond body otherwise =>
      cond.references scope 0 ++
        (body.references scope next ++ otherwise.references scope (next + body.variableCount))
  | .foreach _ _ var _ seq body =>
      seq.references scope 0 ++
        body.references (Function.update scope var (.declared next)) (next + 1)
  | .whileLoop _ cond body => cond.references scope 0 ++ body.references scope next
  | .returnValue _ value => Expr.referencesOption scope value
  | .continueLoop _ => []
  | .breakLoop _ => []
  | .empty _ => []
  | .error _ => []

def Stmt.referencesIn (scope : String → Reference) (next : Nat) : List Stmt → List Reference
  | [] => []
  | stmt :: stmts =>
      stmt.references scope next ++
        Stmt.referencesIn (stmt.scopeAfter scope next) (next + stmt.variableCount) stmts

end

mutual

theorem Expr.length_references (scope : String → Reference) (depth : Nat) :
    ∀ expr : Expr, (expr.references scope depth).length = expr.names.length
  | .literal .. => rfl
  | .ident .. => rfl
  | .member _ target _ _ => by
      rw [Expr.references, Expr.names_member, target.length_references]
  | .call _ callee args => by
      rw [Expr.references, Expr.names_call, List.length_append, List.length_append,
        callee.length_references, Expr.length_referencesIn]
  | .index _ target position => by
      rw [Expr.references, Expr.names_index, List.length_append, List.length_append,
        target.length_references, position.length_references]
  | .new _ _ args => by rw [Expr.references, Expr.names_new, Expr.length_referencesIn]
  | .unary _ _ inner => by rw [Expr.references, Expr.names_unary, inner.length_references]
  | .binary _ _ lhs rhs => by
      rw [Expr.references, Expr.names_binary, List.length_append, List.length_append,
        lhs.length_references, rhs.length_references]
  | .assign _ lhs rhs => by
      rw [Expr.references, Expr.names_assign, List.length_append, List.length_append,
        lhs.length_references, rhs.length_references]
  | .lambda _ _ body => by rw [Expr.references, Expr.names_lambda, body.length_references]
  | .paren _ inner => by rw [Expr.references, Expr.names_paren, inner.length_references]
  | .error _ => rfl

theorem Expr.length_referencesIn (scope : String → Reference) (depth : Nat) :
    ∀ exprs : List Expr,
      (Expr.referencesIn scope depth exprs).length = (exprs.flatMap Expr.names).length
  | [] => rfl
  | expr :: exprs => by
      rw [Expr.referencesIn, List.flatMap_cons, List.length_append, List.length_append,
        expr.length_references, Expr.length_referencesIn]

end

theorem Expr.length_referencesOption (scope : String → Reference) (value : Option Expr) :
    (Expr.referencesOption scope value).length = (value.toList.flatMap Expr.names).length := by
  cases value with
  | none => rfl
  | some expr => simp [Expr.referencesOption, expr.length_references]

theorem Declarator.length_references (scope : String → Reference) (next : Nat)
    (declarators : List Declarator) :
    (Declarator.references scope next declarators).length =
      ((declarators.filterMap Declarator.init).flatMap Expr.names).length := by
  induction declarators generalizing scope next with
  | nil => rfl
  | cons declarator declarators ih =>
      rw [Declarator.references, List.length_append, ih, Expr.length_referencesOption]
      cases written : declarator.init with
      | none => simp [List.filterMap_cons_none written]
      | some init => simp [List.filterMap_cons_some written]

mutual

theorem Stmt.length_references (scope : String → Reference) (next : Nat) :
    ∀ stmt : Stmt, (stmt.references scope next).length = stmt.names.length
  | .block _ stmts => by rw [Stmt.references, Stmt.names_block, Stmt.length_referencesIn]
  | .decl _ declared => by rw [Stmt.references, Stmt.names_decl, Declarator.length_references]
  | .expr _ value => by rw [Stmt.references, Stmt.names_expr, value.length_references]
  | .ifThen _ cond body => by
      rw [Stmt.references, Stmt.names_ifThen, List.length_append, List.length_append,
        cond.length_references, body.length_references]
  | .ifElse _ cond body otherwise => by
      rw [Stmt.references, Stmt.names_ifElse, List.length_append, List.length_append,
        List.length_append, List.length_append, cond.length_references,
        body.length_references, otherwise.length_references]
  | .foreach _ _ _ _ seq body => by
      rw [Stmt.references, Stmt.names_foreach, List.length_append, List.length_append,
        seq.length_references, body.length_references]
  | .whileLoop _ cond body => by
      rw [Stmt.references, Stmt.names_whileLoop, List.length_append, List.length_append,
        cond.length_references, body.length_references]
  | .returnValue _ value => by
      rw [Stmt.references, Stmt.names_returnValue, Expr.length_referencesOption]
  | .continueLoop _ => rfl
  | .breakLoop _ => rfl
  | .empty _ => rfl
  | .error _ => rfl

theorem Stmt.length_referencesIn (scope : String → Reference) (next : Nat) :
    ∀ stmts : List Stmt,
      (Stmt.referencesIn scope next stmts).length = (stmts.flatMap Stmt.names).length
  | [] => rfl
  | stmt :: stmts => by
      rw [Stmt.referencesIn, List.flatMap_cons, List.length_append, List.length_append,
        stmt.length_references, Stmt.length_referencesIn]

end

/-- Lists of equal length behind each other are compared part by part. -/
theorem append_eq_append_iff_of_length {α : Type} {first second rest others : List α}
    (length : first.length = second.length) :
    first ++ rest = second ++ others ↔ first = second ∧ rest = others := by
  constructor
  · intro equal
    exact List.append_inj equal length
  · rintro ⟨rfl, rfl⟩
    rfl

/-- Agreement on the names of two parts is agreement on each of them. -/
theorem agree_append {first second : List String} {left right : String → Reference} :
    (∀ name ∈ first ++ second, left name = right name) ↔
      (∀ name ∈ first, left name = right name) ∧ ∀ name ∈ second, left name = right name := by
  simp only [List.mem_append, or_imp, forall_and]

/-- A name bound on both sides need not agree outside. -/
theorem agree_update {names : List String} {left right : String → Reference} {bound : String}
    {reference : Reference} :
    (∀ name ∈ names, Function.update left bound reference name =
        Function.update right bound reference name) ↔
      ∀ name ∈ names.filter (· ≠ bound), left name = right name := by
  constructor
  · intro agree name member
    obtain ⟨inNames, other⟩ := List.mem_filter.mp member
    have different : name ≠ bound := by simpa using other
    simpa only [Function.update_of_ne different] using agree name inNames
  · intro agree name member
    by_cases same : name = bound
    · subst same
      rw [Function.update_self, Function.update_self]
    · rw [Function.update_of_ne same, Function.update_of_ne same]
      exact agree name (List.mem_filter.mpr ⟨member, by simpa using same⟩)

mutual

theorem Expr.references_eq_iff {left right : String → Reference} {depth : Nat} :
    ∀ expr : Expr, expr.references left depth = expr.references right depth ↔
      ∀ name ∈ expr.freeNames, left name = right name
  | .literal .. => by simp [Expr.references, Expr.freeNames]
  | .ident .. => by simp [Expr.references, Expr.freeNames]
  | .member _ target _ _ => by
      simp only [Expr.references, Expr.freeNames]
      exact target.references_eq_iff
  | .call _ callee args => by
      simp only [Expr.references, Expr.freeNames]
      rw [append_eq_append_iff_of_length (by simp only [Expr.length_references]), agree_append,
        callee.references_eq_iff, Expr.referencesIn_eq_iff args]
  | .index _ target position => by
      simp only [Expr.references, Expr.freeNames]
      rw [append_eq_append_iff_of_length (by simp only [Expr.length_references]), agree_append,
        target.references_eq_iff, position.references_eq_iff]
  | .new _ _ args => by
      simp only [Expr.references, Expr.freeNames]
      exact Expr.referencesIn_eq_iff args
  | .unary _ _ inner => by
      simp only [Expr.references, Expr.freeNames]
      exact inner.references_eq_iff
  | .binary _ _ lhs rhs => by
      simp only [Expr.references, Expr.freeNames]
      rw [append_eq_append_iff_of_length (by simp only [Expr.length_references]), agree_append,
        lhs.references_eq_iff, rhs.references_eq_iff]
  | .assign _ lhs rhs => by
      simp only [Expr.references, Expr.freeNames]
      rw [append_eq_append_iff_of_length (by simp only [Expr.length_references]), agree_append,
        lhs.references_eq_iff, rhs.references_eq_iff]
  | .lambda _ param body => by
      simp only [Expr.references, Expr.freeNames]
      rw [body.references_eq_iff, agree_update]
  | .paren _ inner => by
      simp only [Expr.references, Expr.freeNames]
      exact inner.references_eq_iff
  | .error _ => by simp [Expr.references, Expr.freeNames]

theorem Expr.referencesIn_eq_iff {left right : String → Reference} {depth : Nat} :
    ∀ exprs : List Expr, Expr.referencesIn left depth exprs = Expr.referencesIn right depth exprs ↔
      ∀ name ∈ Expr.freeNamesIn exprs, left name = right name
  | [] => by simp [Expr.referencesIn, Expr.freeNamesIn]
  | expr :: exprs => by
      simp only [Expr.referencesIn, Expr.freeNamesIn]
      rw [append_eq_append_iff_of_length (by simp only [Expr.length_references]), agree_append,
        expr.references_eq_iff, Expr.referencesIn_eq_iff exprs]

end

theorem Expr.referencesOption_eq_iff {left right : String → Reference} (value : Option Expr) :
    Expr.referencesOption left value = Expr.referencesOption right value ↔
      ∀ name ∈ Expr.freeNamesOption value, left name = right name := by
  cases value with
  | none => simp [Expr.referencesOption, Expr.freeNamesOption]
  | some expr => exact expr.references_eq_iff

namespace Declarator

variable {scope left right : String → Reference} {next : Nat} {declarators : List Declarator}
  {name : String}

theorem scopeAfter_of_not_mem (undeclared : name ∉ declarators.map Declarator.name) :
    scopeAfter scope next declarators name = scope name := by
  induction declarators generalizing scope next with
  | nil => rfl
  | cons declarator declarators ih =>
      simp only [List.map_cons, List.mem_cons, not_or] at undeclared
      rw [scopeAfter, ih undeclared.2, Function.update_of_ne undeclared.1]

/-- A declared name means a variable with one of the new numbers, whatever it meant
before. -/
theorem scopeAfter_of_mem (next : Nat) (declaredName : name ∈ declarators.map Declarator.name) :
    ∃ number, next ≤ number ∧
      ∀ scope, scopeAfter scope next declarators name = .declared number := by
  induction declarators generalizing next with
  | nil => simp at declaredName
  | cons declarator declarators ih =>
      by_cases later : name ∈ declarators.map Declarator.name
      · obtain ⟨number, bound, found⟩ := ih (next + 1) later
        exact ⟨number, by omega, fun scope => found _⟩
      · have here : name = declarator.name := by
          simpa only [List.map_cons, List.mem_cons, later, or_false] using declaredName
        refine ⟨next, Nat.le_refl _, fun scope => ?_⟩
        rw [scopeAfter, scopeAfter_of_not_mem later, here, Function.update_self]

theorem references_eq_iff :
    references left next declarators = references right next declarators ↔
      ∀ name ∈ Declarator.freeNamesIn declarators, left name = right name := by
  induction declarators generalizing left right next with
  | nil => simp [references, Declarator.freeNamesIn]
  | cons declarator declarators ih =>
      simp only [references, Declarator.freeNamesIn]
      rw [append_eq_append_iff_of_length (by simp only [Expr.length_referencesOption]),
        agree_append, Expr.referencesOption_eq_iff, ih, agree_update]

end Declarator

namespace Stmt

variable {scope left right : String → Reference} {next : Nat} {name : String}

theorem scopeAfter_of_not_mem {stmt : Stmt} (undeclared : name ∉ stmt.declaredNames) :
    stmt.scopeAfter scope next name = scope name := by
  unfold scopeAfter
  unfold declaredNames at undeclared
  cases found : stmt.declared? with
  | none => rfl
  | some declared =>
      rw [found] at undeclared
      exact Declarator.scopeAfter_of_not_mem undeclared

theorem scopeAfter_of_mem {stmt : Stmt} (next : Nat) (declaredName : name ∈ stmt.declaredNames) :
    ∃ number, next ≤ number ∧ ∀ scope, stmt.scopeAfter scope next name = .declared number := by
  unfold declaredNames at declaredName
  unfold scopeAfter
  cases found : stmt.declared? with
  | none => simp [found] at declaredName
  | some declared =>
      rw [found] at declaredName
      exact Declarator.scopeAfter_of_mem next declaredName

/-- Behind a statement, scopes agree on the names it declares, and on the others as
before. -/
theorem agree_scopeAfter {stmt : Stmt} {names : List String} :
    (∀ name ∈ names, stmt.scopeAfter left next name = stmt.scopeAfter right next name) ↔
      ∀ name ∈ names.filter (· ∉ stmt.declaredNames), left name = right name := by
  constructor
  · intro agree name member
    obtain ⟨inNames, other⟩ := List.mem_filter.mp member
    have undeclared : name ∉ stmt.declaredNames := by simpa using other
    simpa only [scopeAfter_of_not_mem undeclared] using agree name inNames
  · intro agree name member
    by_cases declaredName : name ∈ stmt.declaredNames
    · obtain ⟨number, _, found⟩ := scopeAfter_of_mem next declaredName
      rw [found, found]
    · rw [scopeAfter_of_not_mem declaredName, scopeAfter_of_not_mem declaredName]
      exact agree name (List.mem_filter.mpr ⟨member, by simpa using declaredName⟩)

end Stmt

mutual

theorem Stmt.references_eq_iff {left right : String → Reference} {next : Nat} :
    ∀ stmt : Stmt, stmt.references left next = stmt.references right next ↔
      ∀ name ∈ stmt.freeNames, left name = right name
  | .block _ stmts => by
      simp only [Stmt.references, Stmt.freeNames]
      exact Stmt.referencesIn_eq_iff stmts
  | .decl _ declared => by
      simp only [Stmt.references, Stmt.freeNames]
      exact Declarator.references_eq_iff
  | .expr _ value => by
      simp only [Stmt.references, Stmt.freeNames]
      exact value.references_eq_iff
  | .ifThen _ cond body => by
      simp only [Stmt.references, Stmt.freeNames]
      rw [append_eq_append_iff_of_length (by simp only [Expr.length_references]), agree_append,
        cond.references_eq_iff, body.references_eq_iff]
  | .ifElse _ cond body otherwise => by
      simp only [Stmt.references, Stmt.freeNames]
      rw [append_eq_append_iff_of_length (by simp only [Expr.length_references]), agree_append,
        append_eq_append_iff_of_length (by simp only [Stmt.length_references]), agree_append,
        cond.references_eq_iff, body.references_eq_iff, otherwise.references_eq_iff]
  | .foreach _ _ var _ seq body => by
      simp only [Stmt.references, Stmt.freeNames]
      rw [append_eq_append_iff_of_length (by simp only [Expr.length_references]), agree_append,
        seq.references_eq_iff, body.references_eq_iff, agree_update]
  | .whileLoop _ cond body => by
      simp only [Stmt.references, Stmt.freeNames]
      rw [append_eq_append_iff_of_length (by simp only [Expr.length_references]), agree_append,
        cond.references_eq_iff, body.references_eq_iff]
  | .returnValue _ value => by
      simp only [Stmt.references, Stmt.freeNames]
      exact Expr.referencesOption_eq_iff value
  | .continueLoop _ => by simp [Stmt.references, Stmt.freeNames]
  | .breakLoop _ => by simp [Stmt.references, Stmt.freeNames]
  | .empty _ => by simp [Stmt.references, Stmt.freeNames]
  | .error _ => by simp [Stmt.references, Stmt.freeNames]

theorem Stmt.referencesIn_eq_iff {left right : String → Reference} {next : Nat} :
    ∀ stmts : List Stmt, Stmt.referencesIn left next stmts = Stmt.referencesIn right next stmts ↔
      ∀ name ∈ Stmt.freeNamesIn stmts, left name = right name
  | [] => by simp [Stmt.referencesIn, Stmt.freeNamesIn]
  | stmt :: stmts => by
      simp only [Stmt.referencesIn, Stmt.freeNamesIn]
      rw [append_eq_append_iff_of_length (by simp only [Stmt.length_references]), agree_append,
        stmt.references_eq_iff, Stmt.referencesIn_eq_iff stmts, Stmt.agree_scopeAfter]

end

namespace Stmt

variable {scope : String → Reference} {next : Nat} {name : String}

/-- The names that statements bring into the scope of the ones behind them. -/
def declaredNamesIn (stmts : List Stmt) : List String :=
  stmts.flatMap declaredNames

def scopeAfterIn (scope : String → Reference) (next : Nat) : List Stmt → String → Reference
  | [] => scope
  | stmt :: stmts => scopeAfterIn (stmt.scopeAfter scope next) (next + stmt.variableCount) stmts

theorem scopeAfterIn_of_not_mem {stmts : List Stmt} (undeclared : name ∉ declaredNamesIn stmts) :
    scopeAfterIn scope next stmts name = scope name := by
  induction stmts generalizing scope next with
  | nil => rfl
  | cons stmt stmts ih =>
      rw [declaredNamesIn, List.flatMap_cons, List.mem_append, not_or] at undeclared
      rw [scopeAfterIn, ih undeclared.2, scopeAfter_of_not_mem undeclared.1]

theorem scopeAfterIn_of_mem {stmts : List Stmt} (next : Nat)
    (declaredName : name ∈ declaredNamesIn stmts) :
    ∃ number, next ≤ number ∧ ∀ scope, scopeAfterIn scope next stmts name = .declared number := by
  induction stmts generalizing next with
  | nil => simp [declaredNamesIn] at declaredName
  | cons stmt stmts ih =>
      by_cases later : name ∈ declaredNamesIn stmts
      · obtain ⟨number, bound, found⟩ := ih (next + stmt.variableCount) later
        exact ⟨number, by omega, fun scope => found _⟩
      · have here : name ∈ stmt.declaredNames := by
          rw [declaredNamesIn, List.flatMap_cons, List.mem_append] at declaredName
          exact declaredName.resolve_right later
        obtain ⟨number, bound, found⟩ := scopeAfter_of_mem next here
        refine ⟨number, bound, fun scope => ?_⟩
        rw [scopeAfterIn, scopeAfterIn_of_not_mem later, found]

theorem referencesIn_append (stmts rest : List Stmt) :
    referencesIn scope next (stmts ++ rest) =
      referencesIn scope next stmts ++
        referencesIn (scopeAfterIn scope next stmts) (next + variableCountIn stmts) rest := by
  induction stmts generalizing scope next with
  | nil => simp [referencesIn, scopeAfterIn, variableCountIn]
  | cons stmt stmts ih =>
      rw [List.cons_append, referencesIn, ih, referencesIn, scopeAfterIn, variableCountIn,
        List.append_assoc, Nat.add_assoc]

/-- Statements taken out of their block and put in front of others leave all
references as they are exactly if the others use none of the names that now reach
them.  The scope must not know the numbers of the new variables yet. -/
theorem referencesIn_append_eq_iff {stmts rest : List Stmt}
    (fresh : ∀ name number, scope name = .declared number → number < next) :
    referencesIn scope next (stmts ++ rest) =
        referencesIn scope next stmts ++
          referencesIn scope (next + variableCountIn stmts) rest ↔
      ∀ name ∈ declaredNamesIn stmts, name ∉ freeNamesIn rest := by
  rw [referencesIn_append, List.append_cancel_left_eq, referencesIn_eq_iff]
  constructor
  · intro agree name declaredName free
    obtain ⟨number, bound, found⟩ := scopeAfterIn_of_mem next declaredName
    have known : scope name = .declared number := by rw [← agree name free, found]
    have below := fresh name number known
    omega
  · intro separate name free
    exact scopeAfterIn_of_not_mem fun declaredName => separate name declaredName free

end Stmt

end QueryLoop
