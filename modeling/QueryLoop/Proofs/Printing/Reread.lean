import QueryLoop.Proofs.Printing.Rewritten

namespace QueryLoop

open Token

theorem Stmt.endsInIf_bare (stmt : Stmt) : stmt.bare.endsInIf = stmt.endsInIf := by
  induction stmt using Stmt.children_induction with
  | step stmt ih =>
      cases stmt <;> simp_all [Stmt.bare, Stmt.endsInIf, Stmt.children]

theorem Stmt.anyDangles_bareAll {stmts : List Stmt}
    (each : ∀ stmt ∈ stmts, stmt.bare.dangles = stmt.dangles) :
    Stmt.anyDangles (Stmt.bareAll stmts) = Stmt.anyDangles stmts := by
  induction stmts with
  | nil => rfl
  | cons stmt stmts ih =>
      obtain ⟨own, others⟩ := List.forall_mem_cons.mp each
      rw [Stmt.bareAll, Stmt.anyDangles, Stmt.anyDangles, own, ih others]

theorem Stmt.dangles_bare (stmt : Stmt) : stmt.bare.dangles = stmt.dangles := by
  induction stmt using Stmt.children_induction with
  | step stmt ih =>
      cases stmt with
      | block span stmts => exact Stmt.anyDangles_bareAll ih
      | _ => simp_all [Stmt.bare, Stmt.dangles, Stmt.children, Stmt.endsInIf_bare]

theorem Item.anyDangles_bareAll {items : List Item}
    (each : ∀ item ∈ items, item.bare.dangles = item.dangles) :
    Item.anyDangles (Item.bareAll items) = Item.anyDangles items := by
  induction items with
  | nil => rfl
  | cons item items ih =>
      obtain ⟨own, others⟩ := List.forall_mem_cons.mp each
      rw [Item.bareAll, Item.anyDangles, Item.anyDangles, own, ih others]

theorem Item.dangles_bare (item : Item) : item.bare.dangles = item.dangles := by
  induction item using Item.subitems_induction with
  | step item ih =>
      cases item with
      | namespaceOf span path items => exact Item.anyDangles_bareAll ih
      | classOf span modifiers name members => exact Item.anyDangles_bareAll ih
      | method span modifiers result name params body =>
          exact Stmt.anyDangles_bareAll fun stmt _ => stmt.dangles_bare
      | statement span stmt => exact stmt.dangles_bare
      | _ => rfl

theorem SourceTree.dangles_bare (tree : SourceTree) : tree.bare.dangles = tree.dangles :=
  Item.anyDangles_bareAll fun item _ => item.dangles_bare

/-- What is read without problems never dangles. -/
theorem SourceTree.dangles_of_parse {text : String} {found tree : SourceTree}
    (parsed : SourceTree.parse text = (found, [])) (same : found.bare = tree.bare) :
    tree.dangles = false := by
  obtain ⟨lexemes, -, -, -, settled, -⟩ := SourceTree.of_parse parsed
  rw [← tree.dangles_bare, ← same, found.dangles_bare, settled]

namespace Document

theorem fixAll_eq_ok (document : Document) (config : Config) :
    document.fixAll config false = .ok (document.fixUntilDone config) :=
  rfl

/-- The text of a fixed tree is read as the tokens of the tree, in every format, and as
the tree itself exactly if no `else` of it dangles. -/
theorem fixAll_reread_iff {source path : String} {config : Config} {span : Span} (format : Format)
    (clean : (Document.parse source path).2 = [])
    (isName : Token.lex config.options.lambdaParameter =
      (some [⟨.ident config.options.lambdaParameter, span⟩], [])) :
    ∃ fixed, (Document.parse source path).1.fixAll config false = .ok fixed ∧
      (∃ lexemes, Token.lex (fixed.document.tree.render format) = (some lexemes, []) ∧
        Grammar.tokensOf lexemes = fixed.document.tree.tokens) ∧
      ((∃ found, SourceTree.parse (fixed.document.tree.render format) = (found, []) ∧
          found.bare = fixed.document.tree.bare) ↔ fixed.document.tree.dangles = false) := by
  have proper : (Token.ident config.options.lambdaParameter).Proper :=
    (located_lex isName).scans.proper _ List.mem_cons_self rfl
  have parsed : SourceTree.parse source = ((Document.parse source path).1.tree, []) :=
    Prod.ext rfl clean
  obtain ⟨fits, usable⟩ := writable_fixRounds proper
    ((Document.parse source path).1.tree.countStatements + 1) (.opened source path)
    (SourceTree.writable_of_parse parsed)
  refine ⟨(Document.parse source path).1.fixUntilDone config, fixAll_eq_ok _ config,
    SourceTree.lex_render format fun token listed => (usable token listed).1, ?_⟩
  constructor
  · rintro ⟨found, parsedAgain, same⟩
    exact SourceTree.dangles_of_parse parsedAgain same
  · exact SourceTree.parse_render format (fun token listed => (usable token listed).1)
      (fun token listed => (usable token listed).2) fits

/-- A loop with a lone `if`. -/
theorem fixAll_reread_lone_if :
    ∃ fixed,
      (Document.parse "foreach (var a in b) \x7b if (a.Ok) F(); \x7d" "").1.fixAll {} false =
          .ok fixed ∧
        ∃ found, SourceTree.parse (fixed.document.tree.render {}) = (found, []) ∧
          found.bare = fixed.document.tree.bare := by
  have clean : (Document.parse "foreach (var a in b) \x7b if (a.Ok) F(); \x7d" "").2 = [] :=
    List.isEmpty_iff.mp (by decide +kernel)
  have settled : ((Document.parse "foreach (var a in b) \x7b if (a.Ok) F(); \x7d"
      "").1.fixUntilDone {}).document.tree.dangles = false := by decide +kernel
  have isName : Token.lex ({} : Config).options.lambdaParameter =
      (some [⟨.ident ({} : Config).options.lambdaParameter, ⟨0, 1⟩⟩], []) :=
    Prod.ext (by decide +kernel) (List.isEmpty_iff.mp (by decide +kernel))
  generalize "foreach (var a in b) \x7b if (a.Ok) F(); \x7d" = source at clean settled ⊢
  obtain ⟨fixed, fixes, -, readable⟩ := fixAll_reread_iff {} clean isName
  refine ⟨fixed, fixes, readable.mpr ?_⟩
  rw [fixAll_eq_ok, Except.ok.injEq] at fixes
  exact fixes ▸ settled

/-- The `else` of the outer `if` goes to the inner one. -/
theorem fixAll_reread_dangling_else :
    let source := "if (c) foreach (var a in b) \x7b if (a.Ok) if (z) F(); \x7d else G();"
    (Document.parse source "").2 = [] ∧
      ∃ fixed, (Document.parse source "").1.fixAll {} false = .ok fixed ∧
        ¬∃ found, SourceTree.parse (fixed.document.tree.render {}) = (found, []) ∧
          found.bare = fixed.document.tree.bare := by
  have clean : (Document.parse
      "if (c) foreach (var a in b) \x7b if (a.Ok) if (z) F(); \x7d else G();" "").2 = [] :=
    List.isEmpty_iff.mp (by decide +kernel)
  have dangling : ((Document.parse
      "if (c) foreach (var a in b) \x7b if (a.Ok) if (z) F(); \x7d else G();"
      "").1.fixUntilDone {}).document.tree.dangles = true := by decide +kernel
  generalize "if (c) foreach (var a in b) \x7b if (a.Ok) if (z) F(); \x7d else G();" = source
    at clean dangling ⊢
  refine ⟨clean, (Document.parse source "").1.fixUntilDone {}, fixAll_eq_ok _ {}, ?_⟩
  rintro ⟨found, parsed, same⟩
  rw [SourceTree.dangles_of_parse parsed same] at dangling
  cases dangling

end Document

end QueryLoop
