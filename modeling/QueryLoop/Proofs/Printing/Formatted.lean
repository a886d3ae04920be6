import QueryLoop.Format.Source
import QueryLoop.Proofs.Printing.Statements
import QueryLoop.Proofs.Spelling.Located
import QueryLoop.Proofs.Spelling.Trees

namespace QueryLoop

open Parsing Layout Doc Token

section

variable {format : Format}

theorem TypeRef.restText_map_bare {types : List TypeRef}
    (each : ∀ type ∈ types, type.bare.text = type.text) :
    TypeRef.restText (types.map TypeRef.bare) = TypeRef.restText types := by
  induction types with
  | nil => rfl
  | cons type types ih =>
      obtain ⟨own, others⟩ := List.forall_mem_cons.mp each
      rw [List.map_cons, TypeRef.restText, TypeRef.restText, own, ih others]

theorem TypeRef.text_bare (type : TypeRef) : type.bare.text = type.text := by
  induction type using TypeRef.args_induction with
  | step type ih =>
      obtain ⟨path, args, span⟩ := type
      rw [TypeRef.bare, TypeRef.bareAll_eq]
      cases args with
      | nil => rw [List.map_nil, TypeRef.text, TypeRef.text]
      | cons first others =>
          obtain ⟨own, rest⟩ := List.forall_mem_cons.mp ih
          rw [List.map_cons, TypeRef.text, TypeRef.text, own, TypeRef.restText_map_bare rest]

theorem typeArgsDoc_map_bare (types : List TypeRef) :
    typeArgsDoc (types.map TypeRef.bare) = typeArgsDoc types := by
  cases types <;> simp [typeArgsDoc, TypeRef.text_bare, Function.comp_def]

theorem Expr.docs_bareAll {exprs : List Expr}
    (each : ∀ expr ∈ exprs, expr.bare.doc format = expr.doc format) :
    Expr.docs format (Expr.bareAll exprs) = Expr.docs format exprs := by
  rw [Expr.bareAll_eq, Expr.docs_eq_map, Expr.docs_eq_map, List.map_map]
  exact List.map_congr_left each

theorem Expr.doc_bare (expr : Expr) : expr.bare.doc format = expr.doc format := by
  induction expr using Expr.parts_induction with
  | step expr ih =>
      cases expr with
      | call span callee args =>
          obtain ⟨own, others⟩ := List.forall_mem_cons.mp ih
          rw [Expr.bare, Expr.doc, Expr.doc, own, Expr.docs_bareAll others]
      | new span type args =>
          have same : Expr.docs format (Expr.bareAll args) = _ := Expr.docs_bareAll ih
          rw [Expr.bare, Expr.doc, Expr.doc, TypeRef.text_bare, same]
      | _ => simp_all [Expr.bare, Expr.doc, parts, typeArgsDoc_map_bare]

theorem Declarator.doc_bare (declarator : Declarator) :
    declarator.bare.doc format = declarator.doc format := by
  obtain ⟨name, init, span⟩ := declarator
  cases init <;> simp [Declarator.bare, Declarator.doc, Expr.doc_bare]

theorem LocalDecl.doc_bare (decl : LocalDecl) : decl.bare.doc format = decl.doc format := by
  obtain ⟨type, declarators⟩ := decl
  cases declarators <;>
    simp [LocalDecl.bare, LocalDecl.doc, TypeRef.text_bare, Declarator.doc_bare, Function.comp_def]

theorem Stmt.isBlock_bare (stmt : Stmt) : stmt.bare.isBlock = stmt.isBlock := by
  cases stmt <;> rfl

theorem Stmt.isConditional_bare (stmt : Stmt) : stmt.bare.isConditional = stmt.isConditional := by
  cases stmt <;> rfl

theorem Stmt.docs_bareAll {stmts : List Stmt}
    (each : ∀ stmt ∈ stmts, stmt.bare.doc format = stmt.doc format) :
    Stmt.docs format (Stmt.bareAll stmts) = Stmt.docs format stmts := by
  rw [Stmt.bareAll_eq, Stmt.docs_eq_map, Stmt.docs_eq_map, List.map_map]
  exact List.map_congr_left each

theorem Stmt.doc_bare (stmt : Stmt) : stmt.bare.doc format = stmt.doc format := by
  induction stmt using Stmt.children_induction with
  | step stmt ih =>
      cases stmt with
      | block span stmts =>
          have same : Stmt.docs format (Stmt.bareAll stmts) = _ := Stmt.docs_bareAll ih
          rw [Stmt.bare, Stmt.doc, Stmt.doc, same]
      | returnValue span value => cases value <;> simp [Stmt.bare, Stmt.doc, Expr.doc_bare]
      | _ =>
          simp_all [Stmt.bare, Stmt.doc, children, elseDoc, Expr.doc_bare, LocalDecl.doc_bare,
            TypeRef.text_bare, Stmt.isBlock_bare, Stmt.isConditional_bare]

theorem Item.docs_bareAll {items : List Item}
    (each : ∀ item ∈ items, item.bare.doc format = item.doc format) :
    Item.docs format (Item.bareAll items) = Item.docs format items := by
  rw [Item.bareAll_eq, Item.docs_eq_map, Item.docs_eq_map, List.map_map]
  exact List.map_congr_left each

theorem Item.doc_bare (item : Item) : item.bare.doc format = item.doc format := by
  induction item using Item.subitems_induction with
  | step item ih =>
      cases item with
      | namespaceOf span path items =>
          have same : Item.docs format (Item.bareAll items) = _ := Item.docs_bareAll ih
          rw [Item.bare, Item.doc, Item.doc, same]
      | classOf span modifiers name members =>
          have same : Item.docs format (Item.bareAll members) = _ := Item.docs_bareAll ih
          rw [Item.bare, Item.doc, Item.doc, same]
      | method span modifiers result name params body =>
          have params : (params.map Param.bare).map Param.doc = params.map Param.doc := by
            rw [List.map_map]
            exact List.map_congr_left fun param _ => by simp [Param.bare, Param.doc, TypeRef.text_bare]
          rw [Item.bare, Item.doc, Item.doc, TypeRef.text_bare, params,
            Stmt.docs_bareAll fun stmt _ => stmt.doc_bare]
      | _ => simp [Item.bare, Item.doc, LocalDecl.doc_bare, Stmt.doc_bare]

theorem Item.isUsing_bare (item : Item) : item.bare.isUsing = item.isUsing := by
  cases item <;> rfl

theorem followingItems_bareAll (previous : Item) (items : List Item) :
    followingItems format previous.bare (Item.bareAll items) =
      followingItems format previous items := by
  induction items generalizing previous with
  | nil => rfl
  | cons item items ih =>
      simp [Item.bareAll, followingItems, itemSeparator, Item.isUsing_bare, Item.doc_bare, ih]

theorem SourceTree.render_bare (tree : SourceTree) : tree.bare.render format = tree.render format := by
  obtain ⟨items⟩ := tree
  cases items with
  | nil => rfl
  | cons item items =>
      simp [SourceTree.render, SourceTree.doc, SourceTree.bare, Item.bareAll, Item.doc_bare,
        followingItems_bareAll]

end

/-- Whatever a text is read as, but for comments, is what is read where it is written. -/
theorem Token.Scans.proper {front rest : List Char} {tokens : List Token}
    (scans : Scans front tokens rest) :
    ∀ token ∈ tokens, token.isComment = false → token.Proper := by
  induction scans with
  | nil rest => simp
  | blank _ _ ih => exact ih
  | token spelled _ ih => exact List.forall_mem_cons.mpr ⟨spelled.proper, ih⟩

theorem isComment_of_mem_withoutComments {lexemes : List (Lexeme Token)} {token : Token}
    (listed : token ∈ Grammar.tokensOf (withoutComments lexemes)) : token.isComment = false := by
  obtain ⟨lexeme, kept, rfl⟩ := List.mem_map.mp listed
  simpa using (List.mem_filter.mp kept).2

namespace SourceTree

theorem proper_of_parse {source : String} {tree : SourceTree} (parsed : parse source = (tree, [])) :
    ∀ token ∈ tree.tokens, token.Proper := by
  obtain ⟨lexemes, read, spelled, -⟩ := of_parse parsed
  intro token listed
  rw [← spelled] at listed
  refine (located_lex read).scans.proper token ?_ (isComment_of_mem_withoutComments listed)
  exact List.map_subset Lexeme.token (List.filter_subset_self lexemes) listed

/-- A tree is printed as a text with its tokens, none of them a comment. -/
theorem lex_render {tree : SourceTree} (format : Format)
    (proper : ∀ token ∈ tree.tokens, token.Proper) :
    ∃ lexemes, lex (tree.render format) = (some lexemes, []) ∧
      Grammar.tokensOf lexemes = tree.tokens := by
  obtain ⟨lexemes, read, same⟩ := (tree.scans_render format proper).lex
  rw [String.ofList_toList] at read
  exact ⟨lexemes, read, same⟩

theorem withoutComments_eq {lexemes : List (Lexeme Token)}
    (plain : ∀ token ∈ Grammar.tokensOf lexemes, token.isComment = false) :
    withoutComments lexemes = lexemes :=
  List.filter_eq_self.mpr fun lexeme listed => by
    simpa using plain lexeme.token (List.mem_map_of_mem listed)

/-- A tree without dangling `else` is read again from its text, whatever its format. -/
theorem parse_render {tree : SourceTree} (format : Format)
    (proper : ∀ token ∈ tree.tokens, token.Proper)
    (plain : ∀ token ∈ tree.tokens, token.isComment = false) (fits : tree.Fits)
    (settled : tree.dangles = false) :
    ∃ found, parse (tree.render format) = (found, []) ∧ found.bare = tree.bare := by
  obtain ⟨lexemes, read, spelled⟩ := lex_render format proper
  refine parse_of_tokens read ?_ fits settled
  rw [withoutComments_eq (by rwa [spelled]), spelled]

end SourceTree

theorem formatSource_eq_ok {source : String} {tree : SourceTree} (format : Format)
    (parsed : SourceTree.parse source = (tree, [])) :
    formatSource source format = .ok (tree.render format) := by
  rw [formatSource, parsed]

/-- A text without problems is formatted to a text with the same tokens, but for comments,
and the same tree, which is formatted already. -/
theorem formatSource_stable {source : String} (format : Format)
    (clean : (SourceTree.parse source).2 = []) :
    ∃ lexemes text printed, Token.lex source = (some lexemes, []) ∧
      formatSource source format = .ok text ∧ Token.lex text = (some printed, []) ∧
        Grammar.tokensOf printed = Grammar.tokensOf (withoutComments lexemes) ∧
        (SourceTree.parse text).2 = [] ∧
        (SourceTree.parse text).1.bare = (SourceTree.parse source).1.bare ∧
        formatSource text format = .ok text := by
  obtain ⟨tree, parsed⟩ : ∃ tree, SourceTree.parse source = (tree, []) := ⟨_, Prod.ext rfl clean⟩
  obtain ⟨lexemes, read, spelled, fits, settled, -⟩ := SourceTree.of_parse parsed
  have proper := SourceTree.proper_of_parse parsed
  have plain : ∀ token ∈ tree.tokens, token.isComment = false := by
    rw [← spelled]
    exact fun token => isComment_of_mem_withoutComments
  obtain ⟨printed, readAgain, spelledAgain⟩ := SourceTree.lex_render format proper
  obtain ⟨again, parsedAgain, same⟩ := SourceTree.parse_render format proper plain fits settled
  refine ⟨lexemes, tree.render format, printed, read, formatSource_eq_ok format parsed, readAgain,
    spelledAgain.trans spelled.symm, by rw [parsedAgain], by rw [parsedAgain, parsed]; exact same, ?_⟩
  rw [formatSource_eq_ok format parsedAgain, ← again.render_bare, same, tree.render_bare]

/-- A lambda behind `using`, in front of a comment. -/
theorem formatSource_stable_lambda :
    let source := "using A ;F(x=>x . B( -1 )) ; // c"
    (SourceTree.parse source).2 = [] ∧ ∃ text, formatSource source {} = .ok text ∧
      formatSource text {} = .ok text := by
  intro source
  have clean : (SourceTree.parse source).2 = [] := List.isEmpty_iff.mp (by decide +kernel)
  obtain ⟨-, text, -, -, formatted, -, -, -, -, stable⟩ := formatSource_stable {} clean
  exact ⟨clean, text, formatted, stable⟩

end QueryLoop
