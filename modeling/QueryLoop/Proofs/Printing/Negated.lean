import Mathlib.Control.Traversable.Basic
import QueryLoop.Proofs.Printing.Formatted
import QueryLoop.Proofs.Printing.Usable
import QueryLoop.Proofs.Spelling.Canonical
import QueryLoop.Tree.Sexpr

namespace QueryLoop

open Token

/-- A meaning of expressions as conditions, with whatever effects `m` has: parentheses
add nothing to it, and `!` turns it around. -/
structure Evaluation (m : Type → Type) [Functor m] where
  value : Expr → m Bool
  value_paren (span : Span) (inner : Expr) : value (.paren span inner) = value inner
  value_not (span : Span) (inner : Expr) :
    value (.unary span .not inner) = Bool.not <$> value inner

namespace Evaluation

variable {m : Type → Type} [Functor m] [LawfulFunctor m] (evaluation : Evaluation m)

theorem map_not_map_not (value : m Bool) : Bool.not <$> Bool.not <$> value = value := by
  rw [← comp_map]
  have twice : Bool.not ∘ Bool.not = id := funext Bool.not_not
  rw [twice, id_map]

omit [LawfulFunctor m] in
theorem value_operand (expr : Expr) : evaluation.value expr.operand = evaluation.value expr := by
  unfold Expr.operand
  split
  · rfl
  · exact evaluation.value_paren _ _

theorem value_negated (expr : Expr) :
    evaluation.value expr.negated = Bool.not <$> evaluation.value expr := by
  unfold Expr.negated
  split
  · rw [evaluation.value_not, evaluation.value_paren, map_not_map_not]
  · rw [evaluation.value_not, map_not_map_not]
  · rw [evaluation.value_not, evaluation.value_operand]

theorem value_negated_negated (expr : Expr) :
    evaluation.value expr.negated.negated = evaluation.value expr := by
  rw [evaluation.value_negated, evaluation.value_negated, map_not_map_not]

end Evaluation

/-- The truth of a condition, from the truth of what no connective is the outermost
sign of. -/
def Expr.holds (truth : Expr → Bool) : Expr → Bool
  | .paren _ inner => inner.holds truth
  | .unary _ .not inner => !inner.holds truth
  | .binary _ .and lhs rhs => lhs.holds truth && rhs.holds truth
  | .binary _ .or lhs rhs => lhs.holds truth || rhs.holds truth
  | expr => truth expr

/-- Conditions without effects. -/
def Evaluation.ofTruth (truth : Expr → Bool) : Evaluation Id where
  value := Expr.holds truth
  value_paren _ _ := by rw [Expr.holds]
  value_not _ _ := by rw [Expr.holds]; rfl

namespace Expr

variable {expr part : Expr} {rest : List Token}

/-- A sign that is put in front is taken away again, with its parentheses. -/
theorem negated_negated (noParen : ∀ span inner, expr ≠ .paren span inner)
    (noSign : ∀ span inner, expr ≠ .unary span .not inner) : expr.negated.negated = expr := by
  have signed : expr.negated = .unary expr.span .not expr.operand := by
    unfold negated
    split
    · exact absurd rfl (noSign _ _)
    · exact absurd rfl (noSign _ _)
    · rfl
  rw [signed]
  unfold operand
  split
  · unfold negated
    split
    · rename_i shape
      cases shape
      exact absurd rfl (noParen _ _)
    · rename_i shape
      cases shape
      rfl
    · rename_i other
      exact absurd rfl (other _ _)
  · rfl

/-- An expression that is not called as a generic member fits in front of a semicolon. -/
theorem Placed.close (placed : expr.Placed) (plain : expr.isGeneric = false)
    (closed : Closed rest) : expr.Fits rest := by
  obtain ⟨found, fits, called⟩ := placed
  by_cases isOpen : found.head? = some .parenOpen
  · obtain ⟨more, rfl⟩ := List.head?_eq_some_iff.mp isOpen
    obtain ⟨token, behind, rfl, closes⟩ := closed
    have different : token ≠ .sign .less := by
      rintro rfl
      cases closes
    exact fits.before (called rfl) (fits.not_isLambda (by decide))
      (not_opensTypeArgs_cons behind different) (by simp [plain])
  · exact fits.before_halted closed.halted isOpen (.refl found rest)

theorem tokens_subset_of_mem_parts (inside : part ∈ expr.parts) : part.tokens ⊆ expr.tokens := by
  intro token listed
  cases expr with
  | call span callee args =>
      rw [tokens, List.mem_append]
      rcases List.mem_cons.mp inside with rfl | isArg
      · exact .inl listed
      · exact .inr (mem_argTokens isArg listed)
  | new span type args =>
      rw [tokens]
      exact List.mem_cons_of_mem _ (List.mem_append_right _ (mem_argTokens inside listed))
  | index | binary | assign =>
      simp only [parts, List.mem_cons, List.not_mem_nil, or_false] at inside
      rcases inside with rfl | rfl <;> simp [tokens, listed]
  | member | unary | lambda | paren =>
      obtain rfl := List.mem_singleton.mp inside
      simp [tokens, listed]
  | literal | ident | error => simp [parts] at inside

/-- The expression stands somewhere in a text, and all of its words are written there. -/
structure Standing (expr : Expr) : Prop where
  placed : expr.Placed
  usable : expr.Usable

theorem Standing.of_mem_nodes (standing : expr.Standing) (inside : .expr part ∈ expr.nodes) :
    part.Standing := by
  induction expr using parts_induction with
  | step expr ih =>
      rw [nodes_eq, List.mem_cons, List.mem_flatMap] at inside
      rcases inside with same | ⟨outer, isPart, inside⟩
      · cases same
        exact standing
      · refine ih outer isPart ⟨standing.placed.parts outer isPart, fun token listed => ?_⟩ inside
        exact standing.usable token (tokens_subset_of_mem_parts isPart listed)

end Expr

theorem LocalDecl.tokens_subset_of_mem_inits {decl : LocalDecl} {init : Expr}
    (inside : init ∈ decl.inits) : init.tokens ⊆ decl.tokens := by
  intro token listed
  obtain ⟨declarator, isDeclarator, isInit⟩ := List.mem_filterMap.mp inside
  have own : token ∈ declarator.tokens := by
    rw [Declarator.tokens, isInit]
    exact List.mem_cons_of_mem _ (List.mem_cons_of_mem _ listed)
  obtain ⟨type, declarators⟩ := decl
  cases declarators with
  | nil => simp at isDeclarator
  | cons first others =>
      exact List.mem_append_right _ (List.mem_append_left _ (mem_listed isDeclarator own))

namespace Stmt

variable {stmt child : Stmt} {expr : Expr}

theorem tokens_subset_of_mem_exprs (inside : expr ∈ stmt.exprs) : expr.tokens ⊆ stmt.tokens := by
  intro token listed
  cases stmt with
  | decl span declared => exact LocalDecl.tokens_subset_of_mem_inits inside listed
  | returnValue span value =>
      obtain rfl := Option.mem_toList.mp inside
      simp [tokens, listed]
  | expr | ifThen | ifElse | foreach | whileLoop =>
      obtain rfl := List.mem_singleton.mp inside
      simp [tokens, listed]
  | _ => simp [exprs] at inside

theorem tokens_subset_of_mem_children (inside : child ∈ stmt.children) :
    child.tokens ⊆ stmt.tokens := by
  intro token listed
  cases stmt with
  | block span stmts =>
      rw [tokens, allTokens_eq]
      exact List.mem_cons_of_mem _
        (List.mem_append_left _ (List.mem_flatMap.mpr ⟨child, inside, listed⟩))
  | ifElse span cond body otherwise =>
      simp only [children, List.mem_cons, List.not_mem_nil, or_false] at inside
      rcases inside with rfl | rfl <;> simp [tokens, listed]
  | ifThen | foreach | whileLoop =>
      obtain rfl := List.mem_singleton.mp inside
      simp [tokens, listed]
  | _ => simp [children] at inside

theorem Fits.standing_of_mem_nodes (fits : stmt.Fits) (usable : ∀ token ∈ stmt.tokens, token.Usable)
    (inside : .expr expr ∈ stmt.nodes) : expr.Standing := by
  induction stmt using children_induction with
  | step stmt ih =>
      rw [nodes_eq, List.mem_cons, List.mem_append, List.mem_flatMap, List.mem_flatMap] at inside
      rcases inside with same | ⟨outer, isExpr, inside⟩ | ⟨child, isChild, inside⟩
      · cases same
      · have standing : outer.Standing := ⟨(fits.uncalled outer isExpr).placed, fun token listed =>
          usable token (tokens_subset_of_mem_exprs isExpr listed)⟩
        exact standing.of_mem_nodes inside
      · exact ih child isChild (fits.children child isChild) (fun token listed =>
          usable token (tokens_subset_of_mem_children isChild listed)) inside

end Stmt

namespace Item

variable {item : Item} {expr : Expr}

theorem tokens_subset_of_mem_exprs (inside : expr ∈ item.exprs) : expr.tokens ⊆ item.tokens := by
  cases item with
  | field span modifiers decl =>
      exact List.Subset.trans (LocalDecl.tokens_subset_of_mem_inits inside)
        (List.subset_append_right _ _)
  | _ => simp [exprs] at inside

theorem tokens_subset_of_mem_subitems {child : Item} (inside : child ∈ item.subitems) :
    child.tokens ⊆ item.tokens := by
  intro token listed
  have among : token ∈ Item.allTokens item.subitems := by
    rw [allTokens_eq]
    exact List.mem_flatMap.mpr ⟨child, inside, listed⟩
  cases item with
  | namespaceOf span path items =>
      simp only [subitems] at among
      simp [tokens, among]
  | classOf span modifiers name members =>
      simp only [subitems] at among
      simp [tokens, among]
  | _ => simp [subitems] at inside

theorem tokens_subset_of_mem_stmts {stmt : Stmt} (inside : stmt ∈ item.stmts) :
    stmt.tokens ⊆ item.tokens := by
  intro token listed
  have among : token ∈ Stmt.allTokens item.stmts := by
    rw [Stmt.allTokens_eq]
    exact List.mem_flatMap.mpr ⟨stmt, inside, listed⟩
  cases item with
  | method span modifiers result name params body =>
      simp only [stmts] at among
      simp [tokens, among]
  | statement span stmt =>
      obtain rfl := List.mem_singleton.mp inside
      exact listed
  | _ => simp [stmts] at inside

theorem Fits.standing_of_mem_nodes (fits : item.Fits) (usable : ∀ token ∈ item.tokens, token.Usable)
    (inside : .expr expr ∈ item.nodes) : expr.Standing := by
  induction item using subitems_induction with
  | step item ih =>
      rw [nodes_eq, List.mem_cons, List.mem_append, List.mem_append, List.mem_flatMap,
        List.mem_flatMap, List.mem_flatMap] at inside
      rcases inside with same | ⟨outer, isExpr, inside⟩ | ⟨child, isChild, inside⟩ |
        ⟨stmt, isStmt, inside⟩
      · cases same
      · have standing : outer.Standing := ⟨(fits.uncalled outer isExpr).placed, fun token listed =>
          usable token (tokens_subset_of_mem_exprs isExpr listed)⟩
        exact standing.of_mem_nodes inside
      · exact ih child isChild (fits.subitems child isChild) (fun token listed =>
          usable token (tokens_subset_of_mem_subitems isChild listed)) inside
      · exact (fits.stmts stmt isStmt).standing_of_mem_nodes (fun token listed =>
          usable token (tokens_subset_of_mem_stmts isStmt listed)) inside

end Item

theorem SourceTree.standing_of_parse {source : String} {expr : Expr}
    (clean : (parse source).2 = []) (inside : .expr expr ∈ (parse source).1.nodes) :
    expr.Standing := by
  obtain ⟨lexemes, -, spelled, fits, -⟩ := of_parse (Prod.ext rfl clean)
  have proper := proper_of_parse (Prod.ext rfl clean)
  rw [nodes_eq] at inside
  obtain ⟨item, isItem, inside⟩ := List.mem_flatMap.mp inside
  refine (Item.allFit_iff.mp fits item isItem).standing_of_mem_nodes (fun token listed => ?_) inside
  have inTree : token ∈ (parse source).1.tokens := by
    rw [tokens, Item.allTokens_eq]
    exact List.mem_flatMap.mpr ⟨item, isItem, listed⟩
  refine ⟨proper token inTree, ?_⟩
  rw [← spelled] at inTree
  exact isComment_of_mem_withoutComments inTree

theorem not_opensDecl_lambda (param : String) (rest : List Token) :
    ¬OpensDecl (.ident param :: .arrow :: rest) := by
  rintro ⟨type, name, behind, named, spelled⟩
  obtain ⟨first, others, path_eq⟩ := List.exists_cons_of_ne_nil (TypeRef.named_iff.mp named).1
  rw [TypeRef.tokens_eq, path_eq] at spelled
  cases others with
  | nil => cases args : type.args <;> simp [args, pathTokens, listed, typeArgTokens] at spelled
  | cons second others => simp [pathTokens, listed] at spelled

/-- Only an expression statement looks like one without spans. -/
theorem SourceTree.eq_of_bare_expr {tree : SourceTree} {expr : Expr}
    (same : tree.bare = ⟨[.statement ⟨0, 0⟩ (.expr ⟨0, 0⟩ expr)]⟩) :
    ∃ itemSpan stmtSpan found, tree = ⟨[.statement itemSpan (.expr stmtSpan found)]⟩ ∧
      found.bare = expr := by
  obtain ⟨items⟩ := tree
  match items with
  | [] => simp [bare, Item.bareAll] at same
  | _ :: _ :: _ => simp [bare, Item.bareAll] at same
  | [item] =>
      cases item with
      | statement itemSpan stmt =>
          cases stmt with
          | expr stmtSpan found =>
              simp only [bare, Item.bareAll, Item.bare, Stmt.bare, mk.injEq, List.cons.injEq,
                Item.statement.injEq, Stmt.expr.injEq] at same
              exact ⟨itemSpan, stmtSpan, found, rfl, same.1.2.2⟩
          | _ => simp [bare, Item.bareAll, Item.bare, Stmt.bare] at same
      | _ => simp [bare, Item.bareAll, Item.bare] at same

theorem SourceTree.mem_nodes_of_expr {itemSpan stmtSpan : Span} {expr : Expr} {node : Node}
    (inside : node ∈ expr.nodes) : node ∈ nodes ⟨[.statement itemSpan (.expr stmtSpan expr)]⟩ := by
  rw [nodes_eq, List.flatMap_singleton, Item.nodes_eq]
  refine List.mem_cons_of_mem _ (List.mem_append_right _ (List.mem_append_right _ ?_))
  rw [Item.stmts, List.flatMap_singleton, Stmt.nodes_eq, Stmt.exprs, List.flatMap_singleton]
  exact List.mem_cons_of_mem _ (List.mem_append_left _ inside)

namespace Expr

/-- The text is a statement that is the expression, but for spans. -/
def ReadFrom (expr : Expr) (text : String) : Prop :=
  ∃ itemSpan stmtSpan found,
    SourceTree.parse text = (⟨[.statement itemSpan (.expr stmtSpan found)]⟩, []) ∧
      found.bare = expr.bare

variable {expr : Expr} {param : String}

/-- A lambda whose body stands on its own is read from its text. -/
theorem readFrom_abstracted (span : Span) (format : Format) (fits : expr.Fits [.semicolon])
    (usable : expr.Usable) (isName : (Token.ident param).Proper) :
    (abstracted param expr).ReadFrom ((Stmt.expr span (.abstracted param expr)).render format) := by
  let stmt : Stmt := .expr span (.abstracted param expr)
  have written : ∀ token ∈ stmt.tokens, token.Usable := by
    simp only [stmt, Stmt.tokens, abstracted, tokens, List.cons_append, List.forall_mem_cons,
      List.forall_mem_append]
    exact ⟨usable_ident isName, usable_mark (by decide), usable, usable_mark (by decide), by simp⟩
  have scans : Scans (stmt.render format).toList stmt.tokens [] :=
    stmt.closes (fun token listed => (written token listed).1) _ (Layout.lays_render _ _) []
  obtain ⟨lexemes, read, spelled⟩ := scans.lex
  rw [String.ofList_toList] at read
  have spelled : Grammar.tokensOf lexemes = stmt.tokens := spelled
  have noComments : withoutComments lexemes = lexemes := by
    refine SourceTree.withoutComments_eq ?_
    rw [spelled]
    exact fun token listed => (written token listed).2
  have closed : Closed [.semicolon] := ⟨_, _, rfl, rfl⟩
  let tree : SourceTree := ⟨[.statement span stmt]⟩
  have stmtFits : stmt.Fits := ⟨⟨closed.stops, fits⟩, not_opensDecl_lambda param _⟩
  have treeFits : tree.Fits := ⟨stmtFits, trivial⟩
  have treeSpelled : Grammar.tokensOf (withoutComments lexemes) = tree.tokens := by
    rw [noComments, spelled]
    simp [tree, SourceTree.tokens, Item.allTokens, Item.tokens]
  obtain ⟨found, parsed, same⟩ := SourceTree.parse_of_tokens read treeSpelled treeFits rfl
  obtain ⟨itemSpan, stmtSpan, value, rfl, alike⟩ := SourceTree.eq_of_bare_expr same
  exact ⟨itemSpan, stmtSpan, value, parsed, alike⟩

theorem isGeneric_bare (expr : Expr) : expr.bare.isGeneric = expr.isGeneric := by
  cases expr with
  | member span target name typeArgs => cases typeArgs <;> rfl
  | _ => rfl

/-- No text is a lambda whose body is a sign in front of a member with type arguments. -/
theorem ReadFrom.not_isGeneric {text : String} {span : Span} {op : UnaryOp}
    (read : (abstracted param (.unary span op expr)).ReadFrom text) : expr.isGeneric = false := by
  obtain ⟨itemSpan, stmtSpan, found, parsed, same⟩ := read
  have clean : (SourceTree.parse text).2 = [] := by rw [parsed]
  have canonical := SourceTree.canonical_of_parse clean
  rw [parsed] at canonical
  cases found with
  | lambda lambdaSpan found body =>
      simp only [abstracted, bare, lambda.injEq, true_and] at same
      cases body with
      | unary signSpan sign inner =>
          simp only [bare, unary.injEq, true_and] at same
          have isNode : .expr (.unary signSpan sign inner) ∈ SourceTree.nodes
              ⟨[.statement itemSpan (.expr stmtSpan (.lambda lambdaSpan found
                (.unary signSpan sign inner)))]⟩ := by
            refine SourceTree.mem_nodes_of_expr ?_
            rw [nodes_eq, parts, List.flatMap_singleton, nodes_eq]
            exact List.mem_cons_of_mem _ List.mem_cons_self
          have plain := (canonical _ isNode).notGeneric inner List.mem_cons_self
          rw [← inner.isGeneric_bare, same.2.2, expr.isGeneric_bare] at plain
          simpa using plain
      | _ => simp [bare] at same
  | _ => simp [abstracted, bare] at same

/-- A negated member with type arguments is not the body of a lambda in any text. -/
theorem not_readFrom_negated (generic : expr.isGeneric = true) (text : String) :
    ¬(abstracted param expr.negated).ReadFrom text := by
  intro read
  cases expr with
  | member memberSpan target name typeArgs =>
      have plain : (member memberSpan target name typeArgs).isGeneric = false :=
        read.not_isGeneric
      rw [generic] at plain
      cases plain
  | _ => cases generic

theorem readFrom_negated {source : String} (clean : (SourceTree.parse source).2 = [])
    (inside : .expr expr ∈ (SourceTree.parse source).1.nodes) (plain : expr.isGeneric = false)
    (isName : (Token.ident param).Proper) (span : Span) (format : Format) :
    (abstracted param expr.negated).ReadFrom
      ((Stmt.expr span (.abstracted param expr.negated)).render format) := by
  obtain ⟨placed, usable⟩ := SourceTree.standing_of_parse clean inside
  have closed : Closed [.semicolon] := ⟨_, _, rfl, rfl⟩
  exact readFrom_abstracted span format (negated_fits (placed.close plain closed) closed)
    (usable_negated usable) isName

/-- The negation has the opposite value, a second one takes a sign away that the first one
puts in front, and a lambda with a negated body is read from its text.  Only a member
with type arguments, which is no expression by itself but half of a call, is not a body:
neither printed text nor any other says so. -/
theorem negated_negates (expr : Expr) :
    (∀ {m : Type → Type} [Functor m] [LawfulFunctor m] (evaluation : Evaluation m),
      evaluation.value expr.negated = Bool.not <$> evaluation.value expr ∧
        evaluation.value expr.negated.negated = evaluation.value expr) ∧
    ((∀ span inner, expr ≠ .paren span inner) → (∀ span inner, expr ≠ .unary span .not inner) →
      expr.negated.negated = expr) ∧
    ∀ source, (SourceTree.parse source).2 = [] →
      .expr expr ∈ (SourceTree.parse source).1.nodes →
      ∀ param paramSpan, Token.lex param = (some [⟨.ident param, paramSpan⟩], []) →
        (expr.isGeneric = false → ∀ span format,
          (abstracted param expr.negated).ReadFrom
            ((Stmt.expr span (.abstracted param expr.negated)).render format)) ∧
        (expr.isGeneric = true → ∀ text, ¬(abstracted param expr.negated).ReadFrom text) := by
  refine ⟨fun evaluation => ?_, negated_negated, ?_⟩
  · exact ⟨evaluation.value_negated expr, evaluation.value_negated_negated expr⟩
  · intro source clean inside param paramSpan isName
    have proper : (Token.ident param).Proper :=
      (located_lex isName).scans.proper _ List.mem_cons_self rfl
    exact ⟨fun plain => readFrom_negated clean inside plain proper, not_readFrom_negated⟩

/-- The negation of a condition gets parentheses and loses them again.  Where only `a`
holds, the condition does not, and the negation does. -/
theorem negated_negates_condition :
    let source := "if (a && -b) F();"
    let evaluation := Evaluation.ofTruth (·.name? = some "a")
    ∃ expr, .expr expr ∈ (SourceTree.parse source).1.nodes ∧ expr.sexpr = "(&& a (- b))" ∧
      expr.negated.negated = expr ∧
      evaluation.value expr = false ∧ evaluation.value expr.negated = true ∧
      (abstracted "x" expr.negated).ReadFrom
        ((Stmt.expr ⟨0, 0⟩ (.abstracted "x" expr.negated)).render {}) := by
  intro source evaluation
  have clean : (SourceTree.parse source).2 = [] := List.isEmpty_iff.mp (by decide +kernel)
  have isName : Token.lex "x" = (some [⟨.ident "x", ⟨0, 1⟩⟩], []) :=
    Prod.ext (by decide +kernel) (List.isEmpty_iff.mp (by decide +kernel))
  have first : ((SourceTree.parse source).1.nodes.filterMap Node.expr?).head?.map
      (fun expr => (expr.sexpr, expr.isPrimary, expr.isUnary, expr.isGeneric,
        expr.holds (·.name? = some "a"))) =
        some ("(&& a (- b))", false, false, false, false) := by decide +kernel
  obtain ⟨expr, isFirst, shape⟩ := Option.map_eq_some_iff.mp first
  simp only [Prod.mk.injEq] at shape
  obtain ⟨node, inside, isExpr⟩ := List.mem_filterMap.mp (List.mem_of_head? isFirst)
  obtain rfl : node = .expr expr := by
    cases node <;> simp_all [Node.expr?]
  obtain ⟨values, twice, readable⟩ := negated_negates expr
  have fails : evaluation.value expr = false := shape.2.2.2.2
  have opposite := (values evaluation).1
  rw [fails] at opposite
  refine ⟨expr, inside, shape.1, twice ?_ ?_, fails, opposite, ?_⟩
  · rintro span inner rfl
    cases shape.2.1
  · rintro span inner rfl
    cases shape.2.2.1
  · exact (readable source clean inside "x" _ isName).1 shape.2.2.2.1 _ _

/-- The callee `a.F<int>` is a node of a clean reading, and its negation is printed as a text
that is not read as it. -/
theorem negated_not_read_type_arguments :
    let source := "a.F<int>();"
    (SourceTree.parse source).2 = [] ∧
    ∃ expr, .expr expr ∈ (SourceTree.parse source).1.nodes ∧ expr.sexpr = "(member a F<int>)" ∧
      (Stmt.expr default (.abstracted "x" expr.negated)).render {} = "x => !a.F<int>;" ∧
      ¬(abstracted "x" expr.negated).ReadFrom "x => !a.F<int>;" := by
  intro source
  have clean : (SourceTree.parse source).2 = [] := List.isEmpty_iff.mp (by decide +kernel)
  have second : ((SourceTree.parse source).1.nodes.filterMap Node.expr?)[1]?.map
      (fun expr => (expr.sexpr, expr.isGeneric,
        (Stmt.expr default (.abstracted "x" expr.negated)).render {})) =
        some ("(member a F<int>)", true, "x => !a.F<int>;") := by decide +kernel
  obtain ⟨expr, isSecond, shape⟩ := Option.map_eq_some_iff.mp second
  simp only [Prod.mk.injEq] at shape
  obtain ⟨spelled, generic, printed⟩ := shape
  obtain ⟨node, inside, isExpr⟩ := List.mem_filterMap.mp (List.mem_of_getElem? isSecond)
  obtain rfl : node = .expr expr := by
    cases node <;> simp_all [Node.expr?]
  exact ⟨clean, expr, inside, spelled, printed, not_readFrom_negated generic _⟩

end Expr

end QueryLoop
