import QueryLoop.Proofs.Printing.Expressions

namespace QueryLoop

open Layout Doc Token Token.Lexer

namespace Layout.Doc

variable {tokens more : List Token}

/-- Documents on lines of their own. -/
theorem closes_lines {α : Type} (docOf : α → Doc) {spell : α → List Token} {items : List α}
    (each : ∀ item ∈ items, (docOf item).Closes (spell item)) :
    (concat ((items.map docOf).map (hardline ++ ·))).Closes (items.flatMap spell) := by
  induction items with
  | nil =>
      rintro chars rfl rest
      exact .nil rest
  | cons item items ih =>
      obtain ⟨own, others⟩ := List.forall_mem_cons.mp each
      exact (blanks_hardline.closes.append own).append (ih others)

theorem closes_bracesDoc {α : Type} (format : Format) (docOf : α → Doc) {spell : α → List Token}
    {items : List α} (each : ∀ item ∈ items, (docOf item).Closes (spell item)) :
    (bracesDoc format (items.map docOf)).Closes
      (.braceOpen :: (items.flatMap spell ++ [.braceClose])) := by
  have opening : (text "\x7b").Closes [.braceOpen] :=
    closes_bracket (c := '\x7b') rfl (by decide)
  have closing : (text "\x7d").Closes [.braceClose] :=
    closes_bracket (c := '\x7d') rfl (by decide)
  have inside : (nest format.step (concat ((items.map docOf).map (hardline ++ ·)))).Closes
      (items.flatMap spell) := closes_lines docOf each
  have whole := ((opening.append inside).append blanks_hardline.closes).append closing
  rw [List.append_nil] at whole
  exact whole

/-- A condition or the head of a loop in parentheses behind its keyword. -/
theorem closes_headerDoc (word : Keyword) {inner : Doc} (writes : inner.Writes tokens) :
    (headerDoc word.text inner).Closes (.keyword word :: .parenOpen :: (tokens ++ [.parenClose])) := by
  have named : (text word.text).Writes [.keyword word] := writes_token (proper_keyword word) rfl
  have opening : (text " (").Closes [.parenOpen] := by
    rintro chars rfl rest
    exact .blank (by decide) (.single (.bracket (c := '(') (by decide)))
  have grouped : (group inner).Writes tokens := writes
  exact named.append_closes (Parts.append (parts_text (c := ' ') rfl (by decide)))
    (closes_enclose opening grouped (c := ')') rfl (by decide))

theorem closes_embeddedDoc (format : Format) (isBlock : Bool) {body : Doc}
    (closes : body.Closes tokens) : (embeddedDoc format isBlock body).Closes tokens := by
  have indented := blanks_hardline.closes.append closes
  cases isBlock <;> exact indented

/-- A head with what it decides on. -/
theorem closes_headed (format : Format) (word : Keyword) (isBlock : Bool) {inner body : Doc}
    (writes : inner.Writes tokens) (closes : body.Closes more) :
    (headerDoc word.text inner ++ embeddedDoc format isBlock body).Closes
      (.keyword word :: .parenOpen :: (tokens ++ .parenClose :: more)) := by
  have whole := (closes_headerDoc word writes).append (closes_embeddedDoc format isBlock closes)
  simpa using whole

theorem parts_embeddedDoc (format : Format) (isBlock : Bool) (body : Doc) :
    (embeddedDoc format isBlock body).Parts := by
  have parts : (hardline ++ body).Parts := spaces_hardline.parts.append
  cases isBlock <;> exact parts

theorem closes_elseDoc (format : Format) (otherwise : Stmt) {doc : Doc}
    (closes : doc.Closes tokens) :
    (elseDoc format otherwise doc).Closes (.keyword .elseWord :: tokens) := by
  have word : (text "else").Writes [.keyword .elseWord] := writes_token (proper_keyword .elseWord) rfl
  have spelled := blanks_hardline.closes.append_writes word
  unfold elseDoc
  split
  · exact spelled.append_closes spaces_space.parts.append (blanks_space.closes.append closes)
  · exact spelled.append_closes (parts_embeddedDoc format _ doc) (closes_embeddedDoc format _ closes)

end Layout.Doc

variable {format : Format}

theorem Declarator.writes (declarator : Declarator)
    (proper : ∀ token ∈ declarator.tokens, token.Proper) :
    (declarator.doc format).Writes declarator.tokens := by
  obtain ⟨name, init, span⟩ := declarator
  cases init with
  | none => exact writes_token (proper _ List.mem_cons_self) rfl
  | some init =>
      rw [Declarator.tokens, List.forall_mem_cons, List.forall_mem_cons] at proper
      obtain ⟨isName, -, inInit⟩ := proper
      have sign : (text " =" ++ line " ").Closes [.assign] :=
        closes_before_spaces (blanks_line blanks_space) (spaces_line spaces_space)
          fun isBlank _ => .blank (by decide)
            (.single (spelled_before_blank (c := '=') (by decide) isBlank))
      have value := sign.append_writes (init.writes inInit : (init.doc format).Writes init.tokens)
      have parts : (text " =" ++ line " " ++ init.doc format).Parts :=
        (parts_text (c := ' ') rfl (by decide)).append.append
      exact (writes_token isName rfl).append parts.passes value

theorem LocalDecl.closes (decl : LocalDecl) (proper : ∀ token ∈ decl.tokens, token.Proper) :
    (decl.doc format).Closes decl.tokens := by
  obtain ⟨type, declarators⟩ := decl
  cases declarators with
  | nil => exact closes_separator (c := ';') rfl (by decide)
  | cons first others =>
      simp only [LocalDecl.tokens, List.forall_mem_append] at proper
      obtain ⟨inType, inDeclarators, -⟩ := proper
      have listed : (intersperse (text ", ") ((first :: others).map (Declarator.doc format))).Writes
          (Token.listed .comma Declarator.tokens (first :: others)) := by
        refine writes_intersperse _ closes_comma parts_comma fun declarator isDeclarator => ?_
        exact declarator.writes fun token inside =>
          inDeclarators token (mem_listed isDeclarator inside)
      have whole := ((type.writes inType).spaced listed).semicolon
      rw [List.append_assoc] at whole
      exact whole

theorem Stmt.docs_eq_map (format : Format) (stmts : List Stmt) :
    Stmt.docs format stmts = stmts.map (Stmt.doc format) := by
  induction stmts with
  | nil => rw [Stmt.docs]; rfl
  | cons stmt stmts ih => rw [Stmt.docs, ih, List.map_cons]

theorem writes_foreachHead (format : Format) {type : TypeRef} {var : String} {seq : Expr}
    (inType : ∀ token ∈ type.tokens, token.Proper) (isVar : (ident var).Proper)
    (inSeq : ∀ token ∈ seq.tokens, token.Proper) :
    (text type.text ++ text " " ++ text var ++ text " in " ++ seq.doc format).Writes
      (type.tokens ++ .ident var :: .keyword .inWord :: seq.tokens) := by
  have named : (text var).Writes [.ident var] := writes_token isVar rfl
  have typed := (type.writes inType).spaced named
  have word : (text " in ").Closes [.keyword .inWord] :=
    closes_between_spaces ['i', 'n'] rfl fun _ =>
      (proper_keyword .inWord).scans rfl (.blank (by decide))
  have headed := typed.append_closes (parts_text (c := ' ') rfl (by decide)) word
  have whole := headed.append_writes (seq.writes inSeq : (seq.doc format).Writes seq.tokens)
  simpa using whole

/-- Every layout of a statement is read as its tokens. -/
theorem Stmt.closes (stmt : Stmt) (proper : ∀ token ∈ stmt.tokens, token.Proper) :
    (stmt.doc format).Closes stmt.tokens := by
  induction stmt using Stmt.children_induction with
  | step stmt ih =>
      cases stmt with
      | block span stmts =>
          rw [Stmt.tokens, Stmt.allTokens_eq] at proper ⊢
          rw [Stmt.doc, Stmt.docs_eq_map]
          refine closes_bracesDoc format (Stmt.doc format) fun stmt listed => ?_
          refine ih stmt listed fun token inside => proper token ?_
          simp only [List.mem_cons, List.mem_append, List.mem_flatMap]
          exact .inr (.inl ⟨stmt, listed, inside⟩)
      | decl span declared =>
          rw [Stmt.tokens] at proper ⊢
          rw [Stmt.doc]
          exact declared.closes proper
      | expr span value =>
          rw [Stmt.tokens] at proper ⊢
          rw [Stmt.doc]
          exact (value.writes (List.forall_mem_append.mp proper).1).semicolon
      | ifThen span cond body =>
          rw [Stmt.tokens] at proper ⊢
          rw [Stmt.doc]
          simp only [List.forall_mem_append, List.forall_mem_cons] at proper
          obtain ⟨-, -, inCond, -, inBody⟩ := proper
          exact closes_headed format .ifWord _ (cond.writes inCond)
            (ih body List.mem_cons_self inBody)
      | ifElse span cond body otherwise =>
          rw [Stmt.tokens] at proper ⊢
          rw [Stmt.doc]
          simp only [List.forall_mem_append, List.forall_mem_cons] at proper
          obtain ⟨-, -, inCond, -, inBody, -, inElse⟩ := proper
          have condition : (cond.doc format).Writes cond.tokens := cond.writes inCond
          have first := closes_headed format .ifWord body.isBlock condition
            (ih body List.mem_cons_self inBody)
          have last := closes_elseDoc format otherwise (ih otherwise (by simp [children]) inElse)
          have whole := first.append last
          simp only [List.cons_append, List.append_assoc] at whole
          exact whole
      | foreach span type var varSpan seq body =>
          rw [Stmt.tokens] at proper ⊢
          rw [Stmt.doc]
          simp only [List.forall_mem_append, List.forall_mem_cons] at proper
          obtain ⟨-, -, inType, isVar, -, inSeq, -, inBody⟩ := proper
          have whole := closes_headed format .foreachWord body.isBlock
            (writes_foreachHead format inType isVar inSeq) (ih body List.mem_cons_self inBody)
          simp only [List.cons_append, List.append_assoc] at whole
          exact whole
      | whileLoop span cond body =>
          rw [Stmt.tokens] at proper ⊢
          rw [Stmt.doc]
          simp only [List.forall_mem_append, List.forall_mem_cons] at proper
          obtain ⟨-, -, inCond, -, inBody⟩ := proper
          exact closes_headed format .whileWord _ (cond.writes inCond)
            (ih body List.mem_cons_self inBody)
      | continueLoop span =>
          rw [Stmt.tokens, Stmt.doc]
          exact closes_word_semicolon .continueWord rfl
      | breakLoop span =>
          rw [Stmt.tokens, Stmt.doc]
          exact closes_word_semicolon .breakWord rfl
      | returnValue span value =>
          cases value with
          | none =>
              rw [Stmt.tokens, Stmt.doc]
              exact closes_word_semicolon .returnWord rfl
          | some value =>
              rw [Stmt.tokens] at proper ⊢
              rw [Stmt.doc]
              simp only [List.forall_mem_append, List.forall_mem_cons] at proper
              exact ((closes_word .returnWord rfl).append_writes (value.writes proper.2.1)).semicolon
      | empty span =>
          rw [Stmt.tokens, Stmt.doc]
          exact closes_separator (c := ';') rfl (by decide)
      | error span =>
          rw [Stmt.tokens, Stmt.doc]
          exact closes_error

theorem Item.docs_eq_map (format : Format) (items : List Item) :
    Item.docs format items = items.map (Item.doc format) := by
  induction items with
  | nil => rw [Item.docs]; rfl
  | cons item items ih => rw [Item.docs, ih, List.map_cons]

theorem closes_modifiersDoc {modifiers : List String}
    (proper : ∀ token ∈ modifiers.map Token.modifier, token.Proper) :
    (modifiersDoc modifiers).Closes (modifiers.map Token.modifier) := by
  induction modifiers with
  | nil =>
      rintro chars rfl rest
      exact .nil rest
  | cons word modifiers ih =>
      obtain ⟨isWord, others⟩ := List.forall_mem_cons.mp proper
      have own := (writes_token isWord rfl).append_spaces blanks_space spaces_space
      exact own.append (ih others)

theorem Param.writes (param : Param) (proper : ∀ token ∈ param.tokens, token.Proper) :
    param.doc.Writes param.tokens := by
  obtain ⟨inType, isName⟩ := List.forall_mem_append.mp proper
  exact (param.type.writes inType).spaced (writes_token (isName _ List.mem_cons_self) rfl)

/-- The parameters of a method in parentheses. -/
theorem closes_paramsDoc {params : List Param}
    (each : ∀ param ∈ params, param.doc.Writes param.tokens) :
    (enclose "(" ")" (intersperse (text ", ") (params.map Param.doc))).Closes
      (.parenOpen :: (Token.listed .comma Param.tokens params ++ [.parenClose])) :=
  closes_parentheses (writes_intersperse Param.doc closes_comma parts_comma each)

/-- Braces on the line behind the head of an item. -/
theorem closes_head_braces {head : Doc} {tokens inside : List Token} {braces : Doc}
    (writes : head.Writes tokens) (closes : braces.Closes inside) :
    (head ++ hardline ++ braces).Closes (tokens ++ inside) :=
  (writes.append_spaces blanks_hardline spaces_hardline).append closes

/-- Every layout of an item is read as its tokens. -/
theorem Item.closes (item : Item) (proper : ∀ token ∈ item.tokens, token.Proper) :
    (item.doc format).Closes item.tokens := by
  induction item using Item.subitems_induction with
  | step item ih =>
      cases item with
      | usingPath span path =>
          rw [Item.tokens] at proper ⊢
          rw [Item.doc]
          simp only [List.forall_mem_append, List.forall_mem_cons] at proper
          exact ((closes_word .usingWord rfl).append_writes (writes_dottedDoc proper.2.1)).semicolon
      | namespaceOf span path items =>
          rw [Item.tokens, Item.allTokens_eq] at proper ⊢
          rw [Item.doc, Item.docs_eq_map]
          simp only [List.forall_mem_append, List.forall_mem_cons] at proper
          obtain ⟨-, inPath, -, inside, -⟩ := proper
          have braces := closes_bracesDoc format (Item.doc format) fun item listed =>
            ih item listed fun token inItem =>
              inside token (List.mem_flatMap.mpr ⟨item, listed, inItem⟩)
          exact closes_head_braces
            ((closes_word .namespaceWord rfl).append_writes (writes_dottedDoc inPath)) braces
      | classOf span modifiers name members =>
          rw [Item.tokens, Item.allTokens_eq] at proper ⊢
          rw [Item.doc, Item.docs_eq_map]
          simp only [List.forall_mem_append, List.forall_mem_cons] at proper
          obtain ⟨inModifiers, -, isName, -, inside, -⟩ := proper
          have braces := closes_bracesDoc format (Item.doc format) fun item listed =>
            ih item listed fun token inItem =>
              inside token (List.mem_flatMap.mpr ⟨item, listed, inItem⟩)
          have head := ((closes_modifiersDoc inModifiers).append
            (closes_word .classWord rfl)).append_writes (writes_token isName rfl)
          have whole := closes_head_braces head braces
          rw [List.append_assoc, List.append_assoc] at whole
          exact whole
      | method span modifiers result name params body =>
          rw [Item.tokens, Stmt.allTokens_eq] at proper ⊢
          rw [Item.doc, Stmt.docs_eq_map]
          simp only [List.forall_mem_append, List.forall_mem_cons] at proper
          obtain ⟨inModifiers, inResult, isName, -, inParams, -, -, inside, -⟩ := proper
          have braces := closes_bracesDoc format (Stmt.doc format) fun stmt listed =>
            stmt.closes fun token inStmt =>
              inside token (List.mem_flatMap.mpr ⟨stmt, listed, inStmt⟩)
          have params := closes_paramsDoc fun param isParam => param.writes fun token inParam =>
            inParams token (mem_listed isParam inParam)
          have head := (((closes_modifiersDoc inModifiers).append_writes
            (result.writes inResult)).spaced (writes_token isName rfl)).append_closes
              parts_parentheses params
          have whole := closes_head_braces head.writes braces
          simp only [List.append_assoc, List.cons_append, List.nil_append] at whole
          exact whole
      | field span modifiers decl =>
          rw [Item.tokens] at proper ⊢
          rw [Item.doc]
          obtain ⟨inModifiers, inDecl⟩ := List.forall_mem_append.mp proper
          exact (closes_modifiersDoc inModifiers).append (decl.closes inDecl)
      | statement span stmt =>
          rw [Item.tokens] at proper ⊢
          rw [Item.doc]
          exact stmt.closes proper
      | error span =>
          rw [Item.tokens, Item.doc]
          exact closes_error

theorem closes_itemSeparator (previous next : Item) : (itemSeparator previous next).Closes [] := by
  unfold itemSeparator
  split
  · exact blanks_hardline.closes.append blanks_hardline.closes
  · exact blanks_hardline.closes

theorem closes_followingItems {items : List Item} (previous : Item)
    (each : ∀ item ∈ items, (item.doc format).Closes item.tokens) :
    (followingItems format previous items).Closes (Item.allTokens items) := by
  induction items generalizing previous with
  | nil =>
      rintro chars rfl rest
      exact .nil rest
  | cons item items ih =>
      obtain ⟨own, others⟩ := List.forall_mem_cons.mp each
      rw [Item.allTokens]
      exact ((closes_itemSeparator previous item).append own).append (ih item others)

namespace SourceTree

/-- Every layout of a tree is read as its tokens. -/
theorem closes (tree : SourceTree) (proper : ∀ token ∈ tree.tokens, token.Proper) :
    (tree.doc format).Closes tree.tokens := by
  obtain ⟨items⟩ := tree
  have each : ∀ item ∈ items, (item.doc format).Closes item.tokens := by
    intro item listed
    refine item.closes fun token inside => proper token ?_
    rw [SourceTree.tokens, Item.allTokens_eq]
    exact List.mem_flatMap.mpr ⟨item, listed, inside⟩
  cases items with
  | nil =>
      rintro chars rfl rest
      exact .nil rest
  | cons item items =>
      obtain ⟨own, others⟩ := List.forall_mem_cons.mp each
      rw [SourceTree.tokens, Item.allTokens]
      exact own.append (closes_followingItems item others)

/-- The text of a tree is read as its tokens. -/
theorem scans_render (tree : SourceTree) (format : Format)
    (proper : ∀ token ∈ tree.tokens, token.Proper) :
    Scans (tree.render format).toList tree.tokens [] :=
  tree.closes proper _ (lays_render _ _) []

end SourceTree

end QueryLoop
