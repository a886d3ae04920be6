import QueryLoop.Pipeline.Plan
import QueryLoop.Proofs.Binding.FreshName
import QueryLoop.Proofs.Binding.References
import QueryLoop.Proofs.Place.Statements

namespace QueryLoop

/-! The parameter of a pipeline lambda.

A lambda over the loop variable takes a name that no other identifier of its body
has, and puts it in place of the loop variable.  Other identifiers therefore keep
their meaning.  The uses of the loop variable keep theirs unless one of them stands
inside a lambda that happens to bind the chosen name: parameters of lambdas are no
identifiers, so the choice does not look at them.
-/

theorem Expr.rebuildAll_eq_map (replace : Expr → Option Expr) (exprs : List Expr) :
    Expr.rebuildAll replace exprs = exprs.map (Expr.rebuild replace) := by
  induction exprs with
  | nil => rfl
  | cons expr exprs ih => rw [Expr.rebuildAll, ih, List.map_cons]

namespace Resolver

variable {var param : String}

/-- Going by spelling, identifiers with the name of the variable get the new name,
and a lambda that binds the variable itself stays as it is. -/
theorem renamed_textual (expr : Expr) :
    textual.renamed var param expr =
      match expr with
      | .literal span value => .literal span value
      | .ident span name => .ident span (if name = var then param else name)
      | .member span target name typeArgs =>
          .member span (textual.renamed var param target) name typeArgs
      | .call span callee args =>
          .call span (textual.renamed var param callee) (args.map (textual.renamed var param))
      | .index span target position =>
          .index span (textual.renamed var param target) (textual.renamed var param position)
      | .new span type args => .new span type (args.map (textual.renamed var param))
      | .unary span op inner => .unary span op (textual.renamed var param inner)
      | .binary span op lhs rhs =>
          .binary span op (textual.renamed var param lhs) (textual.renamed var param rhs)
      | .assign span lhs rhs =>
          .assign span (textual.renamed var param lhs) (textual.renamed var param rhs)
      | .lambda span inner body =>
          .lambda span inner (if inner = var then body else textual.renamed var param body)
      | .paren span inner => .paren span (textual.renamed var param inner)
      | .error span => .error span := by
  cases expr with
  | ident span name =>
      by_cases same : name = var <;>
        simp [renamed, Expr.rebuild, hides, denotes, textual, byKey, Expr.name?, Expr.span, same]
  | lambda span inner body =>
      by_cases same : inner = var <;>
        simp [renamed, Expr.rebuild, hides, denotes, textual, byKey, Expr.name?, same]
  | _ =>
      simp [renamed, Expr.rebuild, Expr.rebuildAll_eq_map, hides, denotes, textual, byKey,
        Expr.name?]

theorem otherNames_textual (expr : Expr) (var : String) :
    textual.otherNames expr var = expr.names.filter (· ≠ var) := by
  unfold otherNames Expr.names Node.names Expr.identifiers
  generalize Node.identifiers expr.nodes = found
  induction found with
  | nil => rfl
  | cons first found ih =>
      cases named : first.name? with
      | none => simpa [denotes, textual, byKey, named] using ih
      | some name =>
          by_cases same : name = var <;> simpa [denotes, textual, byKey, named, same] using ih

/-- The parameter differs from every other free name of the body. -/
theorem parameterFor_ne {expr : Expr} {preferred name : String} (free : name ∈ expr.freeNames)
    (other : name ≠ var) : name ≠ textual.parameterFor expr var preferred := by
  intro same
  have fresh := freshName_notMem (textual.otherNames expr var) preferred
  change textual.parameterFor expr var preferred ∉ _ at fresh
  rw [← same, otherNames_textual] at fresh
  exact fresh (List.mem_filter.mpr ⟨expr.freeNames_subset_names free, by simpa using other⟩)

end Resolver

mutual

/-- An expression without the names of its variables; members and types keep
theirs. -/
def Expr.nameless : Expr → Expr
  | .literal span value => .literal span value
  | .ident span _ => .ident span ""
  | .member span target name typeArgs => .member span target.nameless name typeArgs
  | .call span callee args => .call span callee.nameless (Expr.namelessAll args)
  | .index span target position => .index span target.nameless position.nameless
  | .new span type args => .new span type (Expr.namelessAll args)
  | .unary span op inner => .unary span op inner.nameless
  | .binary span op lhs rhs => .binary span op lhs.nameless rhs.nameless
  | .assign span lhs rhs => .assign span lhs.nameless rhs.nameless
  | .lambda span _ body => .lambda span "" body.nameless
  | .paren span inner => .paren span inner.nameless
  | .error span => .error span

def Expr.namelessAll : List Expr → List Expr
  | [] => []
  | expr :: exprs => expr.nameless :: Expr.namelessAll exprs

end

/-- The same expression up to the names of its bound variables: without names the two
are equal, and each identifier of the one refers to what it refers to in the other. -/
def Expr.AlphaEquivalent (left right : Expr) : Prop :=
  left.nameless = right.nameless ∧ left.references .outer 0 = right.references .outer 0

mutual

/-- Some use of `var` stands inside a lambda that binds `param`, so `param` in its
place would mean the parameter of that lambda. -/
def Expr.Captures (var param : String) : Expr → Prop
  | .literal .. => False
  | .ident .. => False
  | .member _ target _ _ => target.Captures var param
  | .call _ callee args => callee.Captures var param ∨ Expr.CapturesIn var param args
  | .index _ target position => target.Captures var param ∨ position.Captures var param
  | .new _ _ args => Expr.CapturesIn var param args
  | .unary _ _ inner => inner.Captures var param
  | .binary _ _ lhs rhs => lhs.Captures var param ∨ rhs.Captures var param
  | .assign _ lhs rhs => lhs.Captures var param ∨ rhs.Captures var param
  | .lambda _ inner body =>
      inner ≠ var ∧ ((inner = param ∧ var ∈ body.freeNames) ∨ body.Captures var param)
  | .paren _ inner => inner.Captures var param
  | .error _ => False

def Expr.CapturesIn (var param : String) : List Expr → Prop
  | [] => False
  | expr :: exprs => expr.Captures var param ∨ Expr.CapturesIn var param exprs

end

namespace Resolver

mutual

theorem nameless_renamed {var param : String} :
    ∀ expr : Expr, (textual.renamed var param expr).nameless = expr.nameless
  | .literal .. => by rw [renamed_textual]
  | .ident .. => by rw [renamed_textual]; rfl
  | .member _ target _ _ => by
      rw [renamed_textual, Expr.nameless, Expr.nameless, nameless_renamed target]
  | .call _ callee args => by
      rw [renamed_textual, Expr.nameless, Expr.nameless, nameless_renamed callee,
        namelessAll_renamed args]
  | .index _ target position => by
      rw [renamed_textual, Expr.nameless, Expr.nameless, nameless_renamed target,
        nameless_renamed position]
  | .new _ _ args => by rw [renamed_textual, Expr.nameless, Expr.nameless, namelessAll_renamed args]
  | .unary _ _ inner => by rw [renamed_textual, Expr.nameless, Expr.nameless, nameless_renamed inner]
  | .binary _ _ lhs rhs => by
      rw [renamed_textual, Expr.nameless, Expr.nameless, nameless_renamed lhs, nameless_renamed rhs]
  | .assign _ lhs rhs => by
      rw [renamed_textual, Expr.nameless, Expr.nameless, nameless_renamed lhs, nameless_renamed rhs]
  | .lambda _ inner body => by
      rw [renamed_textual, Expr.nameless, Expr.nameless]
      split
      · rfl
      · rw [nameless_renamed body]
  | .paren _ inner => by rw [renamed_textual, Expr.nameless, Expr.nameless, nameless_renamed inner]
  | .error _ => by rw [renamed_textual]

theorem namelessAll_renamed {var param : String} :
    ∀ exprs : List Expr,
      Expr.namelessAll (exprs.map (textual.renamed var param)) = Expr.namelessAll exprs
  | [] => rfl
  | expr :: exprs => by
      rw [List.map_cons, Expr.namelessAll, Expr.namelessAll, nameless_renamed expr,
        namelessAll_renamed exprs]

end

end Resolver

/-- The names of identifiers with `param` in place of those that refer to `target`. -/
def Reference.renameUses (target : Reference) (param : String) (references : List Reference)
    (names : List String) : List String :=
  List.zipWith (fun reference name => if reference = target then param else name) references names

namespace Reference

variable {target : Reference} {param : String}

theorem renameUses_append {first second : List Reference} {names others : List String}
    (length : first.length = names.length) :
    target.renameUses param (first ++ second) (names ++ others) =
      target.renameUses param first names ++ target.renameUses param second others :=
  List.zipWith_append length

theorem renameUses_of_notMem {references : List Reference} {names : List String}
    (length : references.length = names.length) (unused : target ∉ references) :
    target.renameUses param references names = names := by
  induction references generalizing names with
  | nil =>
      rw [List.eq_nil_of_length_eq_zero length.symm]
      rfl
  | cons reference references ih =>
      cases names with
      | nil => simp at length
      | cons name names =>
          rw [List.mem_cons, not_or] at unused
          have others := ih (by simpa using length) unused.2
          rw [renameUses] at others
          rw [renameUses, List.zipWith_cons_cons, if_neg (Ne.symm unused.1), others]

end Reference

mutual

/-- Identifiers refer to what the scope gives for their names, or to parameters of
lambdas around them. -/
theorem Expr.notMem_references {scope : String → Reference} {target : Reference} {depth : Nat}
    (unknown : ∀ name, scope name ≠ target)
    (outside : ∀ inner, depth ≤ inner → target ≠ .parameter inner) :
    ∀ expr : Expr, target ∉ expr.references scope depth
  | .literal .. => by simp [Expr.references]
  | .ident _ name => by simpa [Expr.references] using (unknown name).symm
  | .member _ target _ _ => by
      rw [Expr.references]
      exact target.notMem_references unknown outside
  | .call _ callee args => by
      rw [Expr.references, List.mem_append, not_or]
      exact ⟨callee.notMem_references unknown outside,
        Expr.notMem_referencesIn unknown outside args⟩
  | .index _ target position => by
      rw [Expr.references, List.mem_append, not_or]
      exact ⟨target.notMem_references unknown outside, position.notMem_references unknown outside⟩
  | .new _ _ args => by
      rw [Expr.references]
      exact Expr.notMem_referencesIn unknown outside args
  | .unary _ _ inner => by
      rw [Expr.references]
      exact inner.notMem_references unknown outside
  | .binary _ _ lhs rhs => by
      rw [Expr.references, List.mem_append, not_or]
      exact ⟨lhs.notMem_references unknown outside, rhs.notMem_references unknown outside⟩
  | .assign _ lhs rhs => by
      rw [Expr.references, List.mem_append, not_or]
      exact ⟨lhs.notMem_references unknown outside, rhs.notMem_references unknown outside⟩
  | .lambda _ param body => by
      rw [Expr.references]
      refine body.notMem_references (fun name => ?_) fun inner bound => outside inner (by omega)
      by_cases same : name = param
      · rw [same, Function.update_self]
        exact (outside depth (Nat.le_refl depth)).symm
      · rw [Function.update_of_ne same]
        exact unknown name
  | .paren _ inner => by
      rw [Expr.references]
      exact inner.notMem_references unknown outside
  | .error _ => by simp [Expr.references]

theorem Expr.notMem_referencesIn {scope : String → Reference} {target : Reference} {depth : Nat}
    (unknown : ∀ name, scope name ≠ target)
    (outside : ∀ inner, depth ≤ inner → target ≠ .parameter inner) :
    ∀ exprs : List Expr, target ∉ Expr.referencesIn scope depth exprs
  | [] => by simp [Expr.referencesIn]
  | expr :: exprs => by
      rw [Expr.referencesIn, List.mem_append, not_or]
      exact ⟨expr.notMem_references unknown outside,
        Expr.notMem_referencesIn unknown outside exprs⟩

end

/-- A parameter that is not the variable leaves the variable with the one name it had. -/
theorem update_eq_iff_of_ne {scope : String → Reference} {var inner : String}
    {target reference : Reference} (only : ∀ name, scope name = target ↔ name = var)
    (other : inner ≠ var) (unlike : target ≠ reference) (name : String) :
    Function.update scope inner reference name = target ↔ name = var := by
  by_cases same : name = inner
  · subst same
    rw [Function.update_self]
    exact ⟨fun equal => absurd equal.symm unlike, fun equal => absurd equal other⟩
  · rw [Function.update_of_ne same]
    exact only name

namespace Resolver

mutual

/-- The identifiers that refer to what `var` alone means get the new name, and the
others keep theirs. -/
theorem names_renamed {var param : String} {scope : String → Reference} {target : Reference}
    {depth : Nat} (only : ∀ name, scope name = target ↔ name = var)
    (outside : ∀ inner, depth ≤ inner → target ≠ .parameter inner) :
    ∀ expr : Expr, (textual.renamed var param expr).names =
      target.renameUses param (expr.references scope depth) expr.names
  | .literal .. => by rw [renamed_textual]; rfl
  | .ident _ name => by
      simp only [renamed_textual, Expr.names_ident, Expr.references, Reference.renameUses,
        List.zipWith_cons_cons, List.zipWith_nil_left, only]
  | .member _ target _ _ => by
      rw [renamed_textual, Expr.names_member, Expr.names_member, Expr.references,
        names_renamed only outside target]
  | .call _ callee args => by
      rw [renamed_textual, Expr.names_call, Expr.names_call, Expr.references,
        Reference.renameUses_append (callee.length_references ..),
        names_renamed only outside callee, names_renamedAll only outside args]
  | .index _ target position => by
      rw [renamed_textual, Expr.names_index, Expr.names_index, Expr.references,
        Reference.renameUses_append (target.length_references ..),
        names_renamed only outside target, names_renamed only outside position]
  | .new _ _ args => by
      rw [renamed_textual, Expr.names_new, Expr.names_new, Expr.references,
        names_renamedAll only outside args]
  | .unary _ _ inner => by
      rw [renamed_textual, Expr.names_unary, Expr.names_unary, Expr.references,
        names_renamed only outside inner]
  | .binary _ _ lhs rhs => by
      rw [renamed_textual, Expr.names_binary, Expr.names_binary, Expr.references,
        Reference.renameUses_append (lhs.length_references ..),
        names_renamed only outside lhs, names_renamed only outside rhs]
  | .assign _ lhs rhs => by
      rw [renamed_textual, Expr.names_assign, Expr.names_assign, Expr.references,
        Reference.renameUses_append (lhs.length_references ..),
        names_renamed only outside lhs, names_renamed only outside rhs]
  | .lambda _ inner body => by
      rw [renamed_textual, Expr.names_lambda, Expr.names_lambda, Expr.references]
      have unlike := outside depth (Nat.le_refl depth)
      by_cases hidden : inner = var
      · -- under a lambda that hides the variable, nothing refers to it
        rw [if_pos hidden, Reference.renameUses_of_notMem (body.length_references ..)]
        refine body.notMem_references (fun name => ?_) fun deeper bound => outside deeper (by omega)
        by_cases same : name = inner
        · rw [same, Function.update_self]
          exact unlike.symm
        · rw [Function.update_of_ne same, ne_eq, only]
          exact hidden ▸ same
      · have deeper : ∀ inner, depth + 1 ≤ inner → target ≠ .parameter inner :=
          fun inner bound => outside inner (by omega)
        rw [if_neg hidden, names_renamed (update_eq_iff_of_ne only hidden unlike) deeper body]
  | .paren _ inner => by
      rw [renamed_textual, Expr.names_paren, Expr.names_paren, Expr.references,
        names_renamed only outside inner]
  | .error _ => by rw [renamed_textual]; rfl

theorem names_renamedAll {var param : String} {scope : String → Reference} {target : Reference}
    {depth : Nat} (only : ∀ name, scope name = target ↔ name = var)
    (outside : ∀ inner, depth ≤ inner → target ≠ .parameter inner) :
    ∀ exprs : List Expr, (exprs.map (textual.renamed var param)).flatMap Expr.names =
      target.renameUses param (Expr.referencesIn scope depth exprs) (exprs.flatMap Expr.names)
  | [] => rfl
  | expr :: exprs => by
      rw [List.map_cons, List.flatMap_cons, List.flatMap_cons, Expr.referencesIn,
        Reference.renameUses_append (expr.length_references ..),
        names_renamed only outside expr, names_renamedAll only outside exprs]

end

/-- In a scope that knows only `var`, its uses are the references to `target`. -/
theorem update_outer_eq_iff (target : Reference) (inside : ∀ name, target ≠ .outer name)
    (var name : String) : Function.update Reference.outer var target name = target ↔ name = var := by
  by_cases same : name = var
  · rw [same, Function.update_self]
    exact ⟨fun _ => rfl, fun _ => rfl⟩
  · rw [Function.update_of_ne same]
    exact ⟨fun equal => absurd equal.symm (inside name), fun equal => absurd equal same⟩

theorem length_references_renamed {var param : String} {old new : String → Reference} {depth : Nat}
    (expr : Expr) :
    ((textual.renamed var param expr).references new depth).length =
      (expr.references old depth).length := by
  have outside : ∀ inner, depth ≤ inner → Reference.declared 0 ≠ .parameter inner := by simp
  rw [Expr.length_references, Expr.length_references,
    names_renamed (update_outer_eq_iff (.declared 0) (by simp) var) outside expr,
    Reference.renameUses, List.length_zipWith, Expr.length_references, Nat.min_self]

end Resolver

/-- Bound on both sides, an inner parameter need not agree outside; but it must not be
the new name, if the variable is used under it. -/
theorem agree_renamed_update {names : List String} {old new : String → Reference}
    {var param inner : String} {reference : Reference} (other : inner ≠ var)
    (unlike : old var ≠ reference) :
    (∀ name ∈ names, Function.update new inner reference (if name = var then param else name) =
        Function.update old inner reference name) ↔
      (∀ name ∈ names.filter (· ≠ inner), new (if name = var then param else name) = old name) ∧
        ¬(inner = param ∧ var ∈ names) := by
  constructor
  · intro agree
    have apart : ¬(inner = param ∧ var ∈ names) := by
      rintro ⟨rfl, used⟩
      have captured := agree var used
      rw [if_pos rfl, Function.update_self, Function.update_of_ne other.symm] at captured
      exact unlike captured.symm
    refine ⟨fun name member => ?_, apart⟩
    obtain ⟨inNames, kept⟩ := List.mem_filter.mp member
    have outside : name ≠ inner := by simpa using kept
    have here := agree name inNames
    rw [Function.update_of_ne outside] at here
    by_cases same : name = var
    · have distinct : param ≠ inner := fun equal => apart ⟨equal.symm, same ▸ inNames⟩
      rw [if_pos same] at here ⊢
      rwa [Function.update_of_ne distinct] at here
    · rw [if_neg same] at here ⊢
      rwa [Function.update_of_ne outside] at here
  · rintro ⟨agree, apart⟩ name member
    by_cases inside : name = inner
    · subst inside
      rw [if_neg other, Function.update_self, Function.update_self]
    · have here := agree name (List.mem_filter.mpr ⟨member, by simpa using inside⟩)
      rw [Function.update_of_ne inside, ← here]
      by_cases same : name = var
      · have distinct : param ≠ inner := fun equal => apart ⟨equal.symm, same ▸ member⟩
        rw [if_pos same, Function.update_of_ne distinct]
      · rw [if_neg same, Function.update_of_ne inside]

/-- Agreement on two parts without capture is agreement without capture on each. -/
theorem agree_renamed_append {first second : List String} {old new : String → Reference}
    {rename : String → String} {inFirst inSecond : Prop} :
    ((∀ name ∈ first ++ second, new (rename name) = old name) ∧ ¬(inFirst ∨ inSecond)) ↔
      ((∀ name ∈ first, new (rename name) = old name) ∧ ¬inFirst) ∧
        (∀ name ∈ second, new (rename name) = old name) ∧ ¬inSecond := by
  simp only [List.mem_append, or_imp, forall_and, not_or]
  tauto

namespace Resolver

mutual

/-- The new body refers to what the old one refers to exactly if its scope gives the
new names the old meanings and no use of the variable is captured. -/
theorem references_renamed_eq_iff {var param : String} {old new : String → Reference} {depth : Nat}
    (outside : ∀ inner, depth ≤ inner → old var ≠ .parameter inner) :
    ∀ expr : Expr,
      (textual.renamed var param expr).references new depth = expr.references old depth ↔
        (∀ name ∈ expr.freeNames, new (if name = var then param else name) = old name) ∧
          ¬expr.Captures var param
  | .literal .. => by
      simp [renamed_textual, Expr.references, Expr.freeNames, Expr.Captures]
  | .ident .. => by
      simp [renamed_textual, Expr.references, Expr.freeNames, Expr.Captures]
  | .member _ target _ _ => by
      simp only [renamed_textual (.member ..), Expr.references, Expr.freeNames, Expr.Captures]
      exact references_renamed_eq_iff outside target
  | .call _ callee args => by
      simp only [renamed_textual (.call ..), Expr.references, Expr.freeNames, Expr.Captures]
      rw [append_eq_append_iff_of_length (length_references_renamed callee),
        agree_renamed_append, references_renamed_eq_iff outside callee,
        referencesIn_renamed_eq_iff outside args]
  | .index _ target position => by
      simp only [renamed_textual (.index ..), Expr.references, Expr.freeNames, Expr.Captures]
      rw [append_eq_append_iff_of_length (length_references_renamed target),
        agree_renamed_append, references_renamed_eq_iff outside target,
        references_renamed_eq_iff outside position]
  | .new _ _ args => by
      simp only [renamed_textual (.new ..), Expr.references, Expr.freeNames, Expr.Captures]
      exact referencesIn_renamed_eq_iff outside args
  | .unary _ _ inner => by
      simp only [renamed_textual (.unary ..), Expr.references, Expr.freeNames, Expr.Captures]
      exact references_renamed_eq_iff outside inner
  | .binary _ _ lhs rhs => by
      simp only [renamed_textual (.binary ..), Expr.references, Expr.freeNames, Expr.Captures]
      rw [append_eq_append_iff_of_length (length_references_renamed lhs),
        agree_renamed_append, references_renamed_eq_iff outside lhs,
        references_renamed_eq_iff outside rhs]
  | .assign _ lhs rhs => by
      simp only [renamed_textual (.assign ..), Expr.references, Expr.freeNames, Expr.Captures]
      rw [append_eq_append_iff_of_length (length_references_renamed lhs),
        agree_renamed_append, references_renamed_eq_iff outside lhs,
        references_renamed_eq_iff outside rhs]
  | .lambda _ inner body => by
      simp only [renamed_textual (.lambda ..), Expr.references, Expr.freeNames, Expr.Captures]
      by_cases hidden : inner = var
      · -- the lambda hides the variable: nothing under it is renamed
        rw [if_pos hidden, body.references_eq_iff, agree_update]
        subst hidden
        constructor
        · intro agree
          refine ⟨fun name member => ?_, by simp⟩
          have kept : name ≠ inner := by simpa using (List.mem_filter.mp member).2
          rw [if_neg kept]
          exact agree name member
        · rintro ⟨agree, -⟩ name member
          have kept : name ≠ inner := by simpa using (List.mem_filter.mp member).2
          have here := agree name member
          rwa [if_neg kept] at here
      · have still : Function.update old inner (.parameter depth) var = old var :=
          Function.update_of_ne (Ne.symm hidden) _ _
        rw [if_neg hidden, references_renamed_eq_iff
            (fun deeper bound => still ▸ outside deeper (by omega)) body,
          agree_renamed_update hidden (outside depth (Nat.le_refl depth))]
        simp only [ne_eq, hidden, not_false_eq_true, true_and, not_or, and_assoc]
  | .paren _ inner => by
      simp only [renamed_textual (.paren ..), Expr.references, Expr.freeNames, Expr.Captures]
      exact references_renamed_eq_iff outside inner
  | .error _ => by
      simp [renamed_textual, Expr.references, Expr.freeNames, Expr.Captures]

theorem referencesIn_renamed_eq_iff {var param : String} {old new : String → Reference}
    {depth : Nat} (outside : ∀ inner, depth ≤ inner → old var ≠ .parameter inner) :
    ∀ exprs : List Expr,
      Expr.referencesIn new depth (exprs.map (textual.renamed var param)) =
          Expr.referencesIn old depth exprs ↔
        (∀ name ∈ Expr.freeNamesIn exprs, new (if name = var then param else name) = old name) ∧
          ¬Expr.CapturesIn var param exprs
  | [] => by simp [Expr.referencesIn, Expr.freeNamesIn, Expr.CapturesIn]
  | expr :: exprs => by
      simp only [List.map_cons, Expr.referencesIn, Expr.freeNamesIn, Expr.CapturesIn]
      rw [append_eq_append_iff_of_length (length_references_renamed expr),
        agree_renamed_append, references_renamed_eq_iff outside expr,
        referencesIn_renamed_eq_iff outside exprs]

end

end Resolver

namespace Expr

/-- The name that a lambda binds in its body. -/
def binder? : Expr → Option String
  | lambda _ param _ => some param
  | _ => none

variable {name : String} {expr : Expr}

theorem mem_freeNamesIn_iff {exprs : List Expr} :
    name ∈ freeNamesIn exprs ↔ ∃ expr ∈ exprs, name ∈ expr.freeNames := by
  induction exprs with
  | nil => simp [freeNamesIn]
  | cons expr exprs ih => simp [freeNamesIn, ih]

theorem mem_freeNames_iff : name ∈ expr.freeNames ↔ expr.name? = some name ∨
    expr.binder? ≠ some name ∧ ∃ part ∈ expr.parts, name ∈ part.freeNames := by
  cases expr with
  | ident span written => simp [freeNames, name?, parts, eq_comm]
  | lambda span inner body =>
      rw [freeNames, List.mem_filter]
      simp only [name?, binder?, parts, List.mem_singleton, exists_eq_left, reduceCtorEq, false_or,
        ne_eq, Option.some.injEq, decide_not, Bool.not_eq_true', decide_eq_false_iff_not]
      rw [and_comm, eq_comm (a := name)]
  | _ => simp [freeNames, name?, binder?, parts, mem_freeNamesIn_iff]

end Expr

namespace Resolver

variable {var param : String}

theorem name?_renamed (expr : Expr) : (textual.renamed var param expr).name? =
    if expr.name? = some var then some param else expr.name? := by
  rw [renamed_textual]
  cases expr with
  | ident span written =>
      simp only [Expr.name?, Option.some.injEq]
      split <;> rfl
  | _ => rfl

theorem binder?_renamed (expr : Expr) :
    (textual.renamed var param expr).binder? = expr.binder? := by
  rw [renamed_textual]
  cases expr <;> rfl

theorem parts_renamed (expr : Expr) : (textual.renamed var param expr).parts =
    if expr.binder? = some var then expr.parts
    else expr.parts.map (textual.renamed var param) := by
  rw [renamed_textual]
  cases expr with
  | lambda span inner body =>
      simp only [Expr.binder?, Expr.parts, Option.some.injEq]
      split <;> rfl
  | _ => rfl

end Resolver

theorem Expr.freeNames_negated (expr : Expr) : expr.negated.freeNames = expr.freeNames := by
  unfold negated
  split
  · simp only [freeNames]
  · simp only [freeNames]
  · simp only [freeNames, operand]
    split
    · rfl
    · simp only [freeNames]

namespace Resolver

variable {var param : String}

theorem notMem_freeNames_renamed (other : param ≠ var) (expr : Expr) :
    var ∉ (textual.renamed var param expr).freeNames := by
  induction expr using Expr.parts_induction with
  | step expr ih =>
      rw [Expr.mem_freeNames_iff, name?_renamed, binder?_renamed, parts_renamed]
      rintro (named | ⟨notVar, part, inside, free⟩)
      · split at named
        · exact other (Option.some.inj named)
        · contradiction
      · rw [if_neg notVar] at inside
        obtain ⟨old, isPart, rfl⟩ := List.mem_map.mp inside
        exact ih old isPart free

/-- Whatever the parameter is called, the lambda takes nothing from the variable. -/
theorem lambda?_spec {expr : Expr} {var : String} (preferred : String) (negate : Bool)
    (used : textual.references expr var = true) :
    ∃ param body, textual.lambda? expr var preferred negate = some (.abstracted param body) ∧
      var ∉ (Expr.abstracted param body).freeNames := by
  let param := textual.parameterFor expr var preferred
  let renamed := textual.renamed var param expr
  refine ⟨param, if negate then renamed.negated else renamed, by rw [lambda?, if_pos used], ?_⟩
  have sameFree : (if negate then renamed.negated else renamed).freeNames = renamed.freeNames := by
    split
    · exact Expr.freeNames_negated renamed
    · rfl
  rw [Expr.abstracted, Expr.freeNames, sameFree]
  by_cases same : param = var
  · simp [same]
  · exact fun free => notMem_freeNames_renamed same expr (List.mem_of_mem_filter free)

end Resolver

theorem Loop.pipeline_textual {loop : Loop} {expr lambda : Expr} {method : String}
    {negate : Bool} {options : ScanOptions}
    (made : Resolver.textual.lambda? expr loop.var options.lambdaParameter negate = some lambda) :
    loop.pipeline method expr negate .textual options =
      .ok (loop.seq.memberCall method [lambda]) := by
  unfold pipeline
  rw [show Resolver.textual.loopVariable loop = loop.var from rfl, made]

theorem Expr.span_nameless (expr : Expr) : expr.nameless.span = expr.span := by
  cases expr <;> rfl

theorem Expr.nameless_abstracted (param : String) (body : Expr) :
    (abstracted param body).nameless = .lambda body.nameless.span "" body.nameless := by
  rw [abstracted, nameless, span_nameless]

theorem Expr.eq_of_abstracted_eq {param other : String} {body inner : Expr}
    (same : abstracted param body = abstracted other inner) : param = other ∧ body = inner := by
  rw [abstracted, abstracted, lambda.injEq] at same
  exact same.2

theorem Expr.references_abstracted (scope : String → Reference) (depth : Nat) (param : String)
    (body : Expr) :
    (abstracted param body).references scope depth =
      body.references (Function.update scope param (.parameter depth)) (depth + 1) := by
  rw [abstracted, references]

namespace Resolver

/-- A lambda with a name that no other free name of its body has. -/
theorem abstracted_renamed_alphaEquivalent_iff {expr : Expr} {var param : String}
    (apart : ∀ name ∈ expr.freeNames, name ≠ var → name ≠ param) :
    (Expr.abstracted var expr).AlphaEquivalent
        (.abstracted param (textual.renamed var param expr)) ↔
      ¬expr.Captures var param := by
  have outside : ∀ inner, 1 ≤ inner →
      Function.update Reference.outer var (.parameter 0) var ≠ .parameter inner := by
    intro inner bound
    rw [Function.update_self, ne_eq, Reference.parameter.injEq]
    omega
  have meanings : ∀ name ∈ expr.freeNames,
      Function.update Reference.outer param (.parameter 0) (if name = var then param else name) =
        Function.update Reference.outer var (.parameter 0) name := by
    intro name free
    by_cases same : name = var
    · rw [if_pos same, same, Function.update_self, Function.update_self]
    · rw [if_neg same, Function.update_of_ne same, Function.update_of_ne (apart name free same)]
  rw [Expr.AlphaEquivalent, Expr.nameless_abstracted, Expr.nameless_abstracted, nameless_renamed,
    Expr.references_abstracted, Expr.references_abstracted]
  constructor
  · rintro ⟨-, equal⟩
    exact ((references_renamed_eq_iff outside expr).mp equal.symm).2
  · intro free
    exact ⟨rfl, ((references_renamed_eq_iff outside expr).mpr ⟨meanings, free⟩).symm⟩

/-- The lambda made from an expression over the loop variable gives the new name to
exactly the free uses of the variable.  It is the same function unless it captures:
a use inside a lambda that already binds the new name falls to that lambda. -/
theorem lambda_alphaEquivalent_iff {expr : Expr} {var : String} (preferred : String)
    (used : textual.references expr var = true) :
    ∃ param body,
      textual.lambda? expr var preferred false = some (.abstracted param body) ∧
      body.names = (Reference.parameter 0).renameUses param
        ((Expr.abstracted var expr).references .outer 0) expr.names ∧
      ((Expr.abstracted var expr).AlphaEquivalent (.abstracted param body) ↔
        ¬expr.Captures var param) := by
  let param := textual.parameterFor expr var preferred
  refine ⟨param, textual.renamed var param expr, ?_, ?_, ?_⟩
  · rw [lambda?, if_pos used]
    rfl
  · rw [Expr.references_abstracted]
    exact names_renamed (update_outer_eq_iff (.parameter 0) (by simp) var)
      (fun inner bound => by rw [ne_eq, Reference.parameter.injEq]; omega) expr
  · exact abstracted_renamed_alphaEquivalent_iff fun name free other =>
      parameterFor_ne free other

/-- `foo.Fits(y => foo == x)`: the new parameter keeps clear of the free `x`, the lambda
inside does not bind it, and the function is the same. -/
theorem lambda_alphaEquivalent_beside_free_name :
    let compared : Expr := .binary default .equal (.ident default "foo") (.ident default "x")
    let expr : Expr := .call default (.member default (.ident default "foo") "Fits" [])
      [.lambda default "y" compared]
    textual.references expr "foo" = true ∧
      ∃ param body,
        textual.lambda? expr "foo" "x" false = some (.abstracted param body) ∧
        body.names = (Reference.parameter 0).renameUses param
          ((Expr.abstracted "foo" expr).references .outer 0) expr.names ∧
        ¬expr.Captures "foo" param ∧
        (Expr.abstracted "foo" expr).AlphaEquivalent (.abstracted param body) := by
  intro compared expr
  have used : textual.references expr "foo" = true := by
    simp [references_textual_iff, expr]
  obtain ⟨param, body, made, renamed, equivalent⟩ := lambda_alphaEquivalent_iff "x" used
  have numbered : textual.lambda? expr "foo" "x" false =
      some (.abstracted "x1" (textual.renamed "foo" "x1" expr)) := rfl
  have chosen : param = "x1" :=
    (Expr.eq_of_abstracted_eq (Option.some.inj (made.symm.trans numbered))).1
  have other : param ≠ "y" := by
    rw [chosen]
    decide
  have free : ¬expr.Captures "foo" param := by
    simp [expr, compared, Expr.Captures, Expr.CapturesIn, other.symm]
  exact ⟨used, param, body, made, renamed, free, equivalent.mpr free⟩

/-- `foo.Items.Any(x => foo.Ok)`: the new parameter is `x`, and the lambda inside
captures it. -/
theorem lambda_captured :
    let items : Expr := .member default (.ident default "foo") "Items" []
    let expr : Expr := .call default (.member default items "Any" [])
      [.lambda default "x" (.member default (.ident default "foo") "Ok" [])]
    textual.references expr "foo" = true ∧
      ∃ lambda, textual.lambda? expr "foo" "x" false = some lambda ∧
        ¬(Expr.abstracted "foo" expr).AlphaEquivalent lambda := by
  intro items expr
  refine ⟨by simp [references_textual_iff, expr, items], _, rfl, ?_⟩
  rintro ⟨-, equal⟩
  revert equal
  decide

end Resolver

end QueryLoop
