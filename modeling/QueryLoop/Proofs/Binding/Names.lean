import QueryLoop.Resolver
import Mathlib.Data.List.Basic

namespace QueryLoop

theorem Outline.preorderAll_eq_flatMap (outlines : List Outline) :
    Outline.preorderAll outlines = outlines.flatMap Outline.preorder := by
  induction outlines with
  | nil => rfl
  | cons outline outlines ih => rw [Outline.preorderAll, ih, List.flatMap_cons]

theorem Expr.outlines_eq_map (exprs : List Expr) :
    Expr.outlines exprs = exprs.map Expr.outline := by
  induction exprs with
  | nil => rfl
  | cons expr exprs ih => rw [Expr.outlines, ih, List.map_cons]

theorem Stmt.outlines_eq_map (stmts : List Stmt) :
    Stmt.outlines stmts = stmts.map Stmt.outline := by
  induction stmts with
  | nil => rfl
  | cons stmt stmts ih => rw [Stmt.outlines, ih, List.map_cons]

namespace Node

/-- The names of the identifiers among the nodes. -/
def names (nodes : List Node) : List String :=
  (identifiers nodes).filterMap Expr.name?

@[simp] theorem names_nil : names [] = [] := rfl

@[simp] theorem names_append (first second : List Node) :
    names (first ++ second) = names first ++ names second := by
  simp [names, identifiers]

@[simp] theorem names_stmt_cons (stmt : Stmt) (nodes : List Node) :
    names (.stmt stmt :: nodes) = names nodes := by
  simp [names, identifiers]

theorem names_flatMap {α : Type} (nodesOf : α → List Node) (parts : List α) :
    names (parts.flatMap nodesOf) = parts.flatMap fun part => names (nodesOf part) := by
  induction parts with
  | nil => rfl
  | cons part parts ih => rw [List.flatMap_cons, names_append, ih, List.flatMap_cons]

end Node

namespace Expr

/-- The names of the identifiers of an expression, in the order of the source. -/
def names (expr : Expr) : List String :=
  Node.names expr.nodes

@[simp] theorem names_literal (span : Span) (value : Literal) :
    (literal span value).names = [] := rfl

@[simp] theorem names_ident (span : Span) (name : String) :
    (ident span name).names = [name] := rfl

/-- The outlines of several expressions carry the names of all of them. -/
theorem names_preorderAll_outlines (exprs : List Expr) :
    Node.names (Outline.preorderAll (outlines exprs)) = exprs.flatMap names := by
  rw [Outline.preorderAll_eq_flatMap, outlines_eq_map, List.flatMap_map, Node.names_flatMap]
  rfl

@[simp] theorem names_member (span : Span) (target : Expr) (name : String)
    (typeArgs : List TypeRef) : (member span target name typeArgs).names = target.names := by
  change Node.names (target.nodes ++ []) = _
  rw [List.append_nil]
  rfl

@[simp] theorem names_call (span : Span) (callee : Expr) (args : List Expr) :
    (call span callee args).names = callee.names ++ args.flatMap names := by
  change Node.names (callee.nodes ++ Outline.preorderAll (outlines args)) = _
  rw [Node.names_append, names_preorderAll_outlines]
  rfl

@[simp] theorem names_new (span : Span) (type : TypeRef) (args : List Expr) :
    (new span type args).names = args.flatMap names := by
  change Node.names (Outline.preorderAll (outlines args)) = _
  rw [names_preorderAll_outlines]

@[simp] theorem names_index (span : Span) (target position : Expr) :
    (index span target position).names = target.names ++ position.names := by
  change Node.names (target.nodes ++ (position.nodes ++ [])) = _
  rw [List.append_nil, Node.names_append]
  rfl

@[simp] theorem names_unary (span : Span) (op : UnaryOp) (inner : Expr) :
    (unary span op inner).names = inner.names := by
  change Node.names (inner.nodes ++ []) = _
  rw [List.append_nil]
  rfl

@[simp] theorem names_binary (span : Span) (op : BinaryOp) (lhs rhs : Expr) :
    (binary span op lhs rhs).names = lhs.names ++ rhs.names := by
  change Node.names (lhs.nodes ++ (rhs.nodes ++ [])) = _
  rw [List.append_nil, Node.names_append]
  rfl

@[simp] theorem names_assign (span : Span) (lhs rhs : Expr) :
    (assign span lhs rhs).names = lhs.names ++ rhs.names := by
  change Node.names (lhs.nodes ++ (rhs.nodes ++ [])) = _
  rw [List.append_nil, Node.names_append]
  rfl

@[simp] theorem names_lambda (span : Span) (param : String) (body : Expr) :
    (lambda span param body).names = body.names := by
  change Node.names (body.nodes ++ []) = _
  rw [List.append_nil]
  rfl

@[simp] theorem names_paren (span : Span) (inner : Expr) :
    (paren span inner).names = inner.names := by
  change Node.names (inner.nodes ++ []) = _
  rw [List.append_nil]
  rfl

@[simp] theorem names_error (span : Span) : (error span).names = [] := rfl

end Expr

namespace Stmt

/-- The names of the identifiers of a statement, in the order of the source. -/
def names (stmt : Stmt) : List String :=
  Node.names stmt.nodes

@[simp] theorem names_block (span : Span) (stmts : List Stmt) :
    (block span stmts).names = stmts.flatMap names := by
  change Node.names (.stmt _ :: Outline.preorderAll (outlines stmts)) = _
  rw [Node.names_stmt_cons, Outline.preorderAll_eq_flatMap, outlines_eq_map, List.flatMap_map,
    Node.names_flatMap]
  rfl

@[simp] theorem names_decl (span : Span) (declared : LocalDecl) :
    (decl span declared).names =
      (declared.declarators.filterMap Declarator.init).flatMap Expr.names := by
  change Node.names (.stmt _ :: Outline.preorderAll declared.outlines) = _
  rw [Node.names_stmt_cons, LocalDecl.outlines, ← Expr.outlines_eq_map,
    Expr.names_preorderAll_outlines]

@[simp] theorem names_expr (span : Span) (value : Expr) :
    (expr span value).names = value.names := by
  change Node.names (.stmt _ :: (value.nodes ++ [])) = _
  rw [Node.names_stmt_cons, List.append_nil]
  rfl

@[simp] theorem names_ifThen (span : Span) (cond : Expr) (body : Stmt) :
    (ifThen span cond body).names = cond.names ++ body.names := by
  change Node.names (.stmt _ :: (cond.nodes ++ (body.nodes ++ []))) = _
  rw [Node.names_stmt_cons, List.append_nil, Node.names_append]
  rfl

@[simp] theorem names_ifElse (span : Span) (cond : Expr) (body otherwise : Stmt) :
    (ifElse span cond body otherwise).names = cond.names ++ (body.names ++ otherwise.names) := by
  change Node.names (.stmt _ :: (cond.nodes ++ (body.nodes ++ (otherwise.nodes ++ [])))) = _
  rw [Node.names_stmt_cons, List.append_nil, Node.names_append, Node.names_append]
  rfl

@[simp] theorem names_foreach (span : Span) (type : TypeRef) (var : String) (varSpan : Span)
    (seq : Expr) (body : Stmt) :
    (foreach span type var varSpan seq body).names = seq.names ++ body.names := by
  change Node.names (.stmt _ :: (seq.nodes ++ (body.nodes ++ []))) = _
  rw [Node.names_stmt_cons, List.append_nil, Node.names_append]
  rfl

@[simp] theorem names_whileLoop (span : Span) (cond : Expr) (body : Stmt) :
    (whileLoop span cond body).names = cond.names ++ body.names := by
  change Node.names (.stmt _ :: (cond.nodes ++ (body.nodes ++ []))) = _
  rw [Node.names_stmt_cons, List.append_nil, Node.names_append]
  rfl

@[simp] theorem names_returnValue (span : Span) (value : Option Expr) :
    (returnValue span value).names = value.toList.flatMap Expr.names := by
  change Node.names (.stmt _ :: Outline.preorderAll (value.toList.map Expr.outline)) = _
  rw [Node.names_stmt_cons, ← Expr.outlines_eq_map, Expr.names_preorderAll_outlines]

end Stmt

namespace Resolver

/-- Going by spelling, an expression refers to a variable if it has its name. -/
theorem references_textual_iff {expr : Expr} {var : String} :
    textual.references expr var = true ↔ var ∈ expr.names := by
  simp only [references, denotes, textual, byKey, List.any_eq_true, decide_eq_true_eq,
    Option.map_eq_some_iff, id_eq, exists_eq_right, Expr.names, Node.names,
    List.mem_filterMap, Expr.identifiers]

theorem referencesIn_textual_iff {stmt : Stmt} {var : String} :
    textual.referencesIn stmt var = true ↔ var ∈ stmt.names := by
  simp only [referencesIn, denotes, textual, byKey, List.any_eq_true, decide_eq_true_eq,
    Option.map_eq_some_iff, id_eq, exists_eq_right, Stmt.names, Node.names,
    List.mem_filterMap, Stmt.identifiers]

end Resolver

mutual

/-- The names an expression takes from around it. -/
def Expr.freeNames : Expr → List String
  | .literal .. => []
  | .ident _ name => [name]
  | .member _ target _ _ => target.freeNames
  | .call _ callee args => callee.freeNames ++ Expr.freeNamesIn args
  | .index _ target position => target.freeNames ++ position.freeNames
  | .new _ _ args => Expr.freeNamesIn args
  | .unary _ _ inner => inner.freeNames
  | .binary _ _ lhs rhs => lhs.freeNames ++ rhs.freeNames
  | .assign _ lhs rhs => lhs.freeNames ++ rhs.freeNames
  | .lambda _ param body => body.freeNames.filter (· ≠ param)
  | .paren _ inner => inner.freeNames
  | .error _ => []

def Expr.freeNamesIn : List Expr → List String
  | [] => []
  | expr :: exprs => expr.freeNames ++ Expr.freeNamesIn exprs

end

/-- The free names of an expression that may be missing. -/
def Expr.freeNamesOption : Option Expr → List String
  | none => []
  | some expr => expr.freeNames

/-- A declarator is in scope for the ones behind it, not for its own initializer. -/
def Declarator.freeNamesIn : List Declarator → List String
  | [] => []
  | declarator :: declarators =>
      Expr.freeNamesOption declarator.init ++
        (Declarator.freeNamesIn declarators).filter (· ≠ declarator.name)

namespace Stmt

def declared? : Stmt → Option LocalDecl
  | decl _ declared => some declared
  | _ => none

theorem eq_decl_of_declared? {stmt : Stmt} {declared : LocalDecl}
    (found : stmt.declared? = some declared) : ∃ span, stmt = decl span declared := by
  cases stmt <;> simp only [declared?, Option.some.injEq, reduceCtorEq] at found
  rw [found]
  exact ⟨_, rfl⟩

/-- The names a statement brings into the scope of the statements behind it. -/
def declaredNames (stmt : Stmt) : List String :=
  match stmt.declared? with
  | some declared => declared.declarators.map Declarator.name
  | none => []

end Stmt

mutual

/-- The names a statement takes from around it. -/
def Stmt.freeNames : Stmt → List String
  | .block _ stmts => Stmt.freeNamesIn stmts
  | .decl _ declared => Declarator.freeNamesIn declared.declarators
  | .expr _ value => value.freeNames
  | .ifThen _ cond body => cond.freeNames ++ body.freeNames
  | .ifElse _ cond body otherwise => cond.freeNames ++ (body.freeNames ++ otherwise.freeNames)
  | .foreach _ _ var _ seq body => seq.freeNames ++ body.freeNames.filter (· ≠ var)
  | .whileLoop _ cond body => cond.freeNames ++ body.freeNames
  | .returnValue _ value => Expr.freeNamesOption value
  | .continueLoop _ => []
  | .breakLoop _ => []
  | .empty _ => []
  | .error _ => []

def Stmt.freeNamesIn : List Stmt → List String
  | [] => []
  | stmt :: stmts =>
      stmt.freeNames ++ (Stmt.freeNamesIn stmts).filter (· ∉ stmt.declaredNames)

end

theorem append_subset_append {first second written others : List String}
    (inFirst : first ⊆ written) (inSecond : second ⊆ others) :
    first ++ second ⊆ written ++ others :=
  List.append_subset.mpr ⟨List.subset_append_of_subset_left _ inFirst,
    List.subset_append_of_subset_right _ inSecond⟩

mutual

/-- Scopes only take names away. -/
theorem Expr.freeNames_subset_names : ∀ expr : Expr, expr.freeNames ⊆ expr.names
  | .literal .. => List.nil_subset _
  | .ident .. => List.Subset.refl _
  | .member _ target _ _ => by
      rw [Expr.freeNames, Expr.names_member]
      exact target.freeNames_subset_names
  | .call _ callee args => by
      rw [Expr.freeNames, Expr.names_call]
      exact append_subset_append callee.freeNames_subset_names
        (Expr.freeNamesIn_subset_names args)
  | .index _ target position => by
      rw [Expr.freeNames, Expr.names_index]
      exact append_subset_append target.freeNames_subset_names
        position.freeNames_subset_names
  | .new _ _ args => by
      rw [Expr.freeNames, Expr.names_new]
      exact Expr.freeNamesIn_subset_names args
  | .unary _ _ inner => by
      rw [Expr.freeNames, Expr.names_unary]
      exact inner.freeNames_subset_names
  | .binary _ _ lhs rhs => by
      rw [Expr.freeNames, Expr.names_binary]
      exact append_subset_append lhs.freeNames_subset_names rhs.freeNames_subset_names
  | .assign _ lhs rhs => by
      rw [Expr.freeNames, Expr.names_assign]
      exact append_subset_append lhs.freeNames_subset_names rhs.freeNames_subset_names
  | .lambda _ param body => by
      rw [Expr.freeNames, Expr.names_lambda]
      exact fun _ free => body.freeNames_subset_names (List.mem_of_mem_filter free)
  | .paren _ inner => by
      rw [Expr.freeNames, Expr.names_paren]
      exact inner.freeNames_subset_names
  | .error _ => List.nil_subset _

theorem Expr.freeNamesIn_subset_names :
    ∀ exprs : List Expr, Expr.freeNamesIn exprs ⊆ exprs.flatMap Expr.names
  | [] => List.nil_subset _
  | expr :: exprs => by
      rw [Expr.freeNamesIn, List.flatMap_cons]
      exact append_subset_append expr.freeNames_subset_names
        (Expr.freeNamesIn_subset_names exprs)

end

theorem Expr.freeNamesOption_subset_names (value : Option Expr) :
    Expr.freeNamesOption value ⊆ value.toList.flatMap Expr.names := by
  cases value with
  | none => exact List.nil_subset _
  | some expr =>
      intro name free
      exact List.mem_flatMap.mpr ⟨expr, by simp, expr.freeNames_subset_names free⟩

theorem Declarator.freeNamesIn_subset_names (declarators : List Declarator) :
    Declarator.freeNamesIn declarators ⊆
      (declarators.filterMap Declarator.init).flatMap Expr.names := by
  induction declarators with
  | nil => exact List.nil_subset _
  | cons declarator declarators ih =>
      intro name free
      rw [Declarator.freeNamesIn, List.mem_append] at free
      rcases free with inInit | later
      · cases written : declarator.init with
        | none => simp [written, Expr.freeNamesOption] at inInit
        | some init =>
            rw [written] at inInit
            rw [List.filterMap_cons_some written, List.flatMap_cons]
            exact List.mem_append_left _ (init.freeNames_subset_names inInit)
      · obtain ⟨init, member, named⟩ := List.mem_flatMap.mp (ih (List.mem_of_mem_filter later))
        obtain ⟨other, otherMember, written⟩ := List.mem_filterMap.mp member
        exact List.mem_flatMap.mpr
          ⟨init, List.mem_filterMap.mpr ⟨other, List.mem_cons_of_mem _ otherMember, written⟩, named⟩

mutual

theorem Stmt.freeNames_subset_names : ∀ stmt : Stmt, stmt.freeNames ⊆ stmt.names
  | .block _ stmts => by
      rw [Stmt.freeNames, Stmt.names_block]
      exact Stmt.freeNamesIn_subset_names stmts
  | .decl _ declared => by
      rw [Stmt.freeNames, Stmt.names_decl]
      exact Declarator.freeNamesIn_subset_names declared.declarators
  | .expr _ value => by
      rw [Stmt.freeNames, Stmt.names_expr]
      exact value.freeNames_subset_names
  | .ifThen _ cond body => by
      rw [Stmt.freeNames, Stmt.names_ifThen]
      exact append_subset_append cond.freeNames_subset_names body.freeNames_subset_names
  | .ifElse _ cond body otherwise => by
      rw [Stmt.freeNames, Stmt.names_ifElse]
      exact append_subset_append cond.freeNames_subset_names
        (append_subset_append body.freeNames_subset_names otherwise.freeNames_subset_names)
  | .foreach _ _ var _ seq body => by
      rw [Stmt.freeNames, Stmt.names_foreach]
      exact append_subset_append seq.freeNames_subset_names
        fun _ free => body.freeNames_subset_names (List.mem_of_mem_filter free)
  | .whileLoop _ cond body => by
      rw [Stmt.freeNames, Stmt.names_whileLoop]
      exact append_subset_append cond.freeNames_subset_names body.freeNames_subset_names
  | .returnValue _ value => by
      rw [Stmt.freeNames, Stmt.names_returnValue]
      exact Expr.freeNamesOption_subset_names value
  | .continueLoop _ => List.nil_subset _
  | .breakLoop _ => List.nil_subset _
  | .empty _ => List.nil_subset _
  | .error _ => List.nil_subset _

theorem Stmt.freeNamesIn_subset_names :
    ∀ stmts : List Stmt, Stmt.freeNamesIn stmts ⊆ stmts.flatMap Stmt.names
  | [] => List.nil_subset _
  | stmt :: stmts => by
      rw [Stmt.freeNamesIn, List.flatMap_cons]
      exact append_subset_append stmt.freeNames_subset_names
        fun _ free => Stmt.freeNamesIn_subset_names stmts (List.mem_of_mem_filter free)

end

end QueryLoop
